import PipelineCompiler.Json.Writer
import PipelineCompiler.Source
import PipelineCompiler.Yaml.Writer

namespace PipelineCompiler

/-!
# Documents as text

* `toYaml`, `toJson` — the text of a document, its keys in the order in which they stand;
* `fileText` — the text that a file of a given name holds.
-/

/-- A document as YAML.  It must not be too deep, nor hold a number with too many digits. -/
def toYaml (document : Value) : Except Failure String :=
  if Yaml.isTooDeep document then .error .illTyped
  else if document.isShown then .ok (Yaml.write document)
  else .error .invalidValue

/-- A document as JSON; with an indentation every item has a line of its own. -/
def toJson (document : Value) (indent : Option Int) : Except Failure String :=
  Json.write (.indented indent) document

/-- The indentation of JSON documents. -/
def defaultIndent : Option Int := some 2

/-- The text of a document in a file, in the format that the name of the file announces. -/
def fileText (document : Value) (path : Path) : Except Failure String :=
  match Format.ofSuffix? path.suffix with
  | some .yaml => (toYaml document).bind wholeText
  | some .json => (toJson document defaultIndent).bind wholeText
  | none => .error (.refusal (.unsupportedDocument path.suffix))

end PipelineCompiler
