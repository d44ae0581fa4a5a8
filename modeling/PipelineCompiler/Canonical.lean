import PipelineCompiler.Digest.Sha256
import PipelineCompiler.Failure.Basic
import PipelineCompiler.Json.Writer

namespace PipelineCompiler

/-!
# Canonical text and structural keys

* `canonicalText` — the JSON text of a value with its keys in order, so that equal data has one
  text;
* `canonicalHash` — its SHA-256 digest;
* `structuralText`, `structuralKey` — the text of a record without the name it was given, and its
  digest;
* `configHash` — the digest of a configuration.
-/

/-- The canonical text of a value. -/
def canonicalText (v : Value) : Except Failure String := Json.write .canonical v

/-- The digest of the canonical text in UTF-8. -/
def canonicalHash (v : Value) : Except Failure String :=
  ((canonicalText v).bind wholeText).map Digest.sha256Hex

/-- A record without its name. -/
def withoutField (nameField : Option String) (record : Value.Entries) : Value.Entries :=
  match nameField with
  | some name => record.filter fun entry => !entry.1.sameKey (.str name)
  | none => record

/-- The text by which equal records are found; records that differ in their names alone are
    equal. -/
def structuralText (nameField : Option String) (record : Value) : Except Failure String :=
  match record.bare with
  | .map entries => (canonicalText (.map (withoutField nameField entries))).bind wholeText
  | other => .error (.refusal (.recordNotMapping other.typeName))

/-- The key of a record: the digest of that text. -/
def structuralKey (nameField : Option String) (record : Value) : Except Failure String :=
  (structuralText nameField record).map Digest.sha256Hex

/-- The digest of a configuration. -/
def configHash (config : Value) : Except Failure String :=
  match config.bare with
  | .map entries => canonicalHash (.map entries)
  | other => .error (.refusal (.configNotMapping other.typeName))

end PipelineCompiler
