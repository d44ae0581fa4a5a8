import PipelineCompiler.Argo.Reference
import PipelineCompiler.CommandLine

namespace PipelineCompiler.Argo

/-!
# Workflow documents

A workflow is a list of named templates.  A template runs a container or is a graph of tasks,
each of which refers to a template again.

* `DagTask` — a task: one of the pipeline, or the conversion of an artifact to a parameter;
* `Template` — a container, a graph, or the container that converts artifacts;
* `Workflow` — the templates with an entry point and its arguments;
* `DagTask.record`, `Template.record`, `Workflow.toValue` — their documents.
-/

/-- An artifact of a container, and the file that holds it. -/
structure ArtifactFile where
  name : String
  path : String
deriving Repr, DecidableEq

/-- The name of the only input of the conversion template. -/
def conversionInput : String := "artifact"

/-- The name of the only output of the conversion template. -/
def conversionOutput : String := "parameter"

/-- A task of a graph template. -/
inductive DagTask where
  | step (template : String) (parameters artifacts : List (String × Reference))
  /-- Turns the artifact `source` into a parameter. -/
  | conversion (template : String) (source : Reference)
deriving Repr, DecidableEq

/-- A template, its name aside. -/
inductive Template where
  | container (parameters : List String) (artifacts outputs : List ArtifactFile) (launch : Launch)
  | dag (parameters artifacts : List String) (outputs : List (String × Reference))
      (tasks : Keyed DagTask)
  | conversion (input output : ArtifactFile) (launch : Launch)

/-- A workflow. -/
structure Workflow where
  generateName : String
  annotations : Value.Entries
  entrypoint : String
  templates : Keyed Template
  parameters : List (String × String)
  artifacts : List (String × String)

/-! ### Parts of tasks and templates -/

namespace DagTask

/-- The template of a task. -/
def template : DagTask → String
  | .step template _ _ | .conversion template _ => template

/-- What the input parameters of the template are bound to. -/
def parameters : DagTask → List (String × Reference)
  | .step _ parameters _ => parameters
  | .conversion _ _ => []

/-- What the input artifacts of the template are bound to. -/
def artifacts : DagTask → List (String × Reference)
  | .step _ _ artifacts => artifacts
  | .conversion _ source => [(conversionInput, source)]

/-- The texts of everything that a task refers to. -/
def texts (task : DagTask) : List String :=
  (task.parameters ++ task.artifacts).map fun binding => binding.2.text

/-- The tasks that have to be done before: those whose outputs occur in its bindings. -/
def dependencies (task : DagTask) : List String := referencedTasks task.texts

end DagTask

namespace Template

/-- The names of the input parameters. -/
def inputParameters : Template → List String
  | .container parameters _ _ _ | .dag parameters _ _ _ => parameters
  | .conversion _ _ _ => []

/-- The names of the input artifacts. -/
def inputArtifacts : Template → List String
  | .container _ artifacts _ _ => artifacts.map ArtifactFile.name
  | .dag _ artifacts _ _ => artifacts
  | .conversion input _ _ => [input.name]

/-- The names of the output artifacts. -/
def outputArtifacts : Template → List String
  | .container _ _ outputs _ => outputs.map ArtifactFile.name
  | .dag _ _ outputs _ => outputs.map (·.1)
  | .conversion _ _ _ => []

/-- The tasks of a template. -/
def tasks : Template → Keyed DagTask
  | .dag _ _ _ tasks => tasks
  | _ => []

end Template

/-! ### Documents -/

/-- A list of things under a name, for inputs, outputs and arguments alike. -/
def listing (name : String) (items : List Value) : String × Value := (name, .list items)

/-- Something that has only a name. -/
def named (name : String) : Value := .ofFields [("name", .str name)]

/-- An artifact with its file. -/
def ArtifactFile.toValue (f : ArtifactFile) : Value :=
  .ofFields [("name", .str f.name), ("path", .str f.path)]

/-- An output parameter with its file. -/
def ArtifactFile.toParameter (f : ArtifactFile) : Value :=
  .ofFields [("name", .str f.name), ("valueFrom", .ofFields [("path", .str f.path)])]

/-- A binding to a value, or to a source. -/
def boundTo (field : String) (binding : String × Reference) : Value :=
  .ofFields [("name", .str binding.1), (field, .str binding.2.text)]

/-- The container of a template. -/
def containerDocument (l : Launch) : Value := .ofFields (("name", .str "main") :: l.fields)

namespace DagTask

/-- The arguments of a task. -/
def arguments : DagTask → Keyed Value
  | .step _ parameters artifacts =>
    [ listing "parameters" (parameters.map (boundTo "value")),
      listing "artifacts" (artifacts.map (boundTo "from")) ]
  | .conversion _ source => [listing "artifacts" [boundTo "from" (conversionInput, source)]]

/-- The fields of a task, its name aside. -/
def fields (task : DagTask) : Keyed Value :=
  [("template", .str task.template), ("arguments", .ofFields task.arguments)]
    ++ (if task.dependencies.isEmpty then []
        else [("dependencies", .ofTexts task.dependencies)])

/-- The record of a task, its name aside. -/
def record (task : DagTask) : Value := .ofFields task.fields

/-- The document of a task. -/
def toValue (entry : String × DagTask) : Value :=
  .ofFields (("name", .str entry.1) :: entry.2.fields)

end DagTask

namespace Template

/-- The inputs of a template. -/
def inputs : Template → Keyed Value
  | .container parameters artifacts _ _ =>
    [ listing "parameters" (parameters.map named),
      listing "artifacts" (artifacts.map ArtifactFile.toValue) ]
  | .dag parameters artifacts _ _ =>
    [listing "parameters" (parameters.map named), listing "artifacts" (artifacts.map named)]
  | .conversion input _ _ => [listing "artifacts" [input.toValue]]

/-- The outputs of a template. -/
def outputs : Template → Keyed Value
  | .container _ _ outputs _ => [listing "artifacts" (outputs.map ArtifactFile.toValue)]
  | .dag _ _ outputs _ => [listing "artifacts" (outputs.map (boundTo "from"))]
  | .conversion _ output _ => [listing "parameters" [output.toParameter]]

/-- What a template does. -/
def body : Template → String × Value
  | .container _ _ _ launch | .conversion _ _ launch => ("container", containerDocument launch)
  | .dag _ _ _ tasks => ("dag", .ofFields [listing "tasks" (tasks.map DagTask.toValue)])

/-- The fields of a template, its name aside. -/
def fields (t : Template) : Keyed Value :=
  [("inputs", .ofFields t.inputs), ("outputs", .ofFields t.outputs), t.body]

/-- The record of a template, its name aside. -/
def record (t : Template) : Value := .ofFields t.fields

/-- The document of a template. -/
def toValue (entry : String × Template) : Value :=
  .ofFields (("name", .str entry.1) :: entry.2.fields)

end Template

namespace Workflow

/-- A parameter of the workflow. -/
def parameter (entry : String × String) : Value :=
  .ofFields [("name", .str entry.1), ("value", .str entry.2)]

/-- An artifact of the workflow, given by its content. -/
def artifact (entry : String × String) : Value :=
  .ofFields [("name", .str entry.1), ("raw", .ofFields [("data", .str entry.2)])]

/-- The document of a workflow. -/
def toValue (w : Workflow) : Value :=
  .ofFields [
    ("apiVersion", .str "argoproj.io/v1alpha1"),
    ("kind", .str "Workflow"),
    ("metadata", .ofFields [
      ("generateName", .str w.generateName),
      ("annotations", .map w.annotations)]),
    ("spec", .ofFields [
      ("entrypoint", .str w.entrypoint),
      listing "templates" (w.templates.map Template.toValue),
      ("arguments", .ofFields [
        listing "parameters" (w.parameters.map parameter),
        listing "artifacts" (w.artifacts.map artifact)])])]

end Workflow
end PipelineCompiler.Argo
