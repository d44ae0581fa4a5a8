import PipelineCompiler.Config.Merge
import PipelineCompiler.Source

namespace PipelineCompiler.Config

/-!
# The effective configuration

* `defaults` — the settings of both targets;
* `readFile` — the mapping in a file of overrides;
* `load` — the defaults, overlaid by a file and then by given overrides.
-/

/-- The settings that hold without any override. -/
def defaults : Value := .ofFields [
  ("argo", .ofFields [
    ("container_inputs_dir", .str "/tmp/inputs"),
    ("container_outputs_dir", .str "/tmp/outputs"),
    ("io_file_name", .str "data"),
    ("converter_image", .str "alpine"),
    ("max_name_length", .int 63),
    ("max_generate_name_length", .int 240),
    ("workflow_annotations", .ofFields [
      ("cloud-pipelines.net/pipeline-editor", .str "true")])]),
  ("vertex", .ofFields [
    ("converter_image", .str "alpine"),
    ("sdk_version", .str "Cloud-Pipelines"),
    ("schema_version", .str "2.0.0"),
    ("enable_cache", .bool true),
    ("max_name_length", .int 128)])]

/-- The mapping in a file; an empty file holds an empty mapping. -/
def readFile (file : SourceFile) : Except Failure Value := do
  if ← file.isMissing then
    throw (.config (.fileNotFound file.path.text))
  let some format := Format.ofSuffix? file.path.suffix
    | throw (.config (.unsupportedFormat file.path.suffix))
  let found ← (format.read (← file.text)).mapError fun fault => .accident fault.accident
  match found.bare with
  | .null => pure (.map [])
  | .map entries => pure (.map entries)
  | other => throw (.config (.fileNotMapping other.typeName))

/-- Lays an override over a configuration. -/
def overlay (base override : Value) : Except Failure Value :=
  (merge base override).mapError .config

/-- The effective configuration.  Overrides that are empty count as none. -/
def load (file : Option SourceFile) (overrides : Value) : Except Failure Value := do
  let config ← overlay defaults (.map [])
  let config ←
    match file with
    | some file => overlay config (← readFile file)
    | none => pure config
  if overrides.isTruthy then
    match overrides with
    | .map entries => overlay config (.map entries)
    | other => throw (.config (.overridesNotMapping other.typeName))
  else pure config

end PipelineCompiler.Config
