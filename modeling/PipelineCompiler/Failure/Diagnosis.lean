import PipelineCompiler.Keyed
import PipelineCompiler.Value.Quoted

namespace PipelineCompiler

/-!
# Diagnoses and reports

What the author of a pipeline is told when it cannot be loaded or compiled.

* `ErrorKind`, `ErrorKind.code` — the kinds of compilation errors and their stable codes;
* `Diagnosis` — kind, message, details and hint, with the path of tasks it belongs to;
* `Diagnosis.within` — the same diagnosis seen from one graph level further out;
* `Report` — the flat form handed to editors and submitters.
-/

/-- The kinds of compilation errors. -/
inductive ErrorKind where
  /-- A compilation error of no particular kind. -/
  | general
  | unknownPlaceholder
  | runtimeCondition
  | missingArgument
  | constantArtifact
  | nestedGraph
  | danglingReference
  | cyclicGraph
  | unresolvedReference
  | invalidComponent
deriving Repr, DecidableEq

/-- The stable code of a kind. -/
def ErrorKind.code : ErrorKind → String
  | .general => "COMPILER_INTERNAL_ERROR"
  | .unknownPlaceholder => "UNKNOWN_PLACEHOLDER_KIND"
  | .runtimeCondition => "UNSUPPORTED_RUNTIME_CONDITION"
  | .missingArgument => "MISSING_REQUIRED_ARGUMENT"
  | .constantArtifact => "CONSTANT_ARTIFACT_UNSUPPORTED"
  | .nestedGraph => "UNSUPPORTED_NESTED_GRAPH"
  | .danglingReference => "DANGLING_REFERENCE"
  | .cyclicGraph => "CYCLIC_GRAPH"
  | .unresolvedReference => "UNRESOLVED_COMPONENT_REFERENCE"
  | .invalidComponent => "INVALID_COMPONENT_SPEC"

/-- What went wrong, and in which task.  The path leads from a task of the outermost graph to the
    task at fault. -/
structure Diagnosis where
  kind : ErrorKind
  message : String
  details : Keyed Value := []
  hint : Option String := none
  taskPath : List String := []

/-- The diagnosis seen from the graph that holds the task `taskId`. -/
def Diagnosis.within (d : Diagnosis) (taskId : String) : Diagnosis :=
  { d with taskPath := taskId :: d.taskPath }

/-- The message behind the path of tasks. -/
def Diagnosis.text (d : Diagnosis) : String :=
  if d.taskPath.isEmpty then d.message else "/".intercalate d.taskPath ++ ": " ++ d.message

/-- A report on a failure, ready to be shown. -/
structure Report where
  code : String
  message : String
  taskPath : List String
  details : Keyed Value
  hint : Option String

/-- The report on a diagnosis. -/
def Diagnosis.report (d : Diagnosis) : Report :=
  { code := d.kind.code
    message := d.text
    taskPath := d.taskPath
    details := d.details
    hint := d.hint }

/-- The text of a failure that has no diagnosis: its only argument, quoted when
    `quotesArgument` holds, or all of them between parentheses. -/
def unexpectedText (quotesArgument : Bool) : List String → String
  | [] => ""
  | [argument] => if quotesArgument then quoted argument else argument
  | arguments => (Value.tuple (arguments.map .str)).debug

/-- The report on a failure that has no diagnosis. -/
def Report.unexpected (className text : String) : Report :=
  { code := ErrorKind.general.code
    message := if text.isEmpty then "Unexpected compiler failure" else text
    taskPath := []
    details := [("exception_class", .str className)]
    hint := some
      "Verifique se o componente foi carregado via atlas_pipelines.load_component_spec" }

end PipelineCompiler
