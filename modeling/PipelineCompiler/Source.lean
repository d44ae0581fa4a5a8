import PipelineCompiler.Failure.Basic
import PipelineCompiler.Json.Reader
import PipelineCompiler.Text.Lowercase
import PipelineCompiler.Yaml.Assembly

namespace PipelineCompiler

/-!
# Source files

Components and configurations are read from files, whose format follows from the end of their
name.

* `Path` — a path in its shortest form;
* `Stored`, `SourceFile` — the name of a file and what stands there;
* `decodeText?` — the text of a file, with one kind of line break;
* `Format`, `Format.read` — the two formats and the values of their texts;
* `Unreadable` — why a text has no value.
-/

/-! ### Paths -/

/-- A path: what stands before its first part, and its parts. -/
structure Path where
  root : String
  parts : List String
deriving Repr, DecidableEq

namespace Path

/-- Two slashes at the start are a root of their own; every other run of slashes is one slash,
    and a dot is no part. -/
def ofString (s : String) : Path :=
  let cs := s.toList
  let root :=
    match cs with
    | '/' :: '/' :: '/' :: _ => "/"
    | '/' :: '/' :: _ => "//"
    | '/' :: _ => "/"
    | _ => ""
  { root, parts := (s.splitOn "/").filter fun part => part != "" && part != "." }

/-- The path as text. -/
def text (p : Path) : String :=
  if p.root.isEmpty && p.parts.isEmpty then "." else p.root ++ "/".intercalate p.parts

/-- The last part. -/
def name (p : Path) : String := p.parts.getLast?.getD ""

/-- The last dot of the name and what follows it, unless the name starts or ends with it. -/
def suffix (p : Path) : String :=
  let cs := p.name.toList
  let tail := (cs.reverse.takeWhile (· != '.')).reverse
  if tail.length + 1 < cs.length && !tail.isEmpty then String.ofList ('.' :: tail) else ""

/-- Whether a path is too long to be looked up: as a whole, or in the first part that is looked
    for.  Lengths are in bytes. -/
def isTooLong (p : Path) : Bool :=
  4095 < p.text.utf8ByteSize ||
    (p.parts.find? (· != "..")).any fun part => 255 < part.utf8ByteSize

end Path

/-! ### Files -/

/-- What stands at a path. -/
inductive Stored where
  | nothing
  | directory
  | file (bytes : List UInt8)

/-- The name of a file, as it was given, and what stands there. -/
structure SourceFile where
  name : String
  stored : Stored

/-- The path of a file. -/
def SourceFile.path (f : SourceFile) : Path := Path.ofString f.name

/-- Whether nothing stands at the path of a file. -/
def SourceFile.isMissing (f : SourceFile) : Except Failure Bool :=
  if f.path.isTooLong then .error .illTyped
  else
    match f.stored with
    | .nothing => .ok true
    | _ => .ok false

/-- Every line break as a line feed. -/
def unifyBreaks : List Char → List Char
  | [] => []
  | '\r' :: '\n' :: rest => '\n' :: unifyBreaks rest
  | '\r' :: rest => '\n' :: unifyBreaks rest
  | c :: rest => c :: unifyBreaks rest

/-- The text of bytes in UTF-8. -/
def decodeText? (bytes : List UInt8) : Option String :=
  (String.fromUTF8? ⟨bytes.toArray⟩).map fun s => String.ofList (unifyBreaks s.toList)

/-- The text of a file. -/
def SourceFile.text (f : SourceFile) : Except Failure String :=
  match f.stored with
  | .file bytes =>
    match decodeText? bytes with
    | some text => .ok text
    | none => .error (.accident .invalidValue)
  | _ => .error .illTyped

/-! ### Formats -/

/-- The formats of text files. -/
inductive Format where
  | yaml
  | json
deriving Repr, DecidableEq

/-- The format that the end of a name announces, in whatever case. -/
def Format.ofSuffix? (suffix : String) : Option Format :=
  let suffix := Text.lower suffix
  if suffix == ".yaml" || suffix == ".yml" then some .yaml
  else if suffix == ".json" then some .json
  else none

/-- Why a text has no value. -/
inductive Unreadable where
  | malformedYaml
  | malformedJson
  /-- A scalar stands for no value, with the reason. -/
  | invalidValue (reason : String)
  /-- A scalar cannot have its type, or values lie too deep inside one another. -/
  | illTyped
deriving Repr, DecidableEq

/-- The accident that happens where a text has to have a value. -/
def Unreadable.accident : Unreadable → Accident
  | .malformedYaml => .malformedYaml
  | .malformedJson => .malformedJson
  | .invalidValue _ => .invalidValue
  | .illTyped => .illTyped

/-- Why a YAML text has no value. -/
def Unreadable.ofYaml : Yaml.Fault → Unreadable
  | .malformed => .malformedYaml
  | .invalidValue reason => .invalidValue reason
  | .illTyped => .illTyped

/-- Why a JSON text has no value. -/
def Unreadable.ofJson : Json.Fault → Unreadable
  | .malformed => .malformedJson
  | .numberTooLong digits => .invalidValue (Number.tooLongMessage digits)
  | .tooDeep => .illTyped

/-- The value of a text. -/
def Format.read (format : Format) (text : String) : Except Unreadable Value :=
  match format with
  | .yaml => (Yaml.read text).mapError .ofYaml
  | .json => (Json.read text).mapError .ofJson

end PipelineCompiler
