import PipelineCompiler.Argo.Workflow
import PipelineCompiler.Binding
import PipelineCompiler.Context
import PipelineCompiler.Naming.Registry

namespace PipelineCompiler.Argo

/-!
# Scopes of graph templates

While a graph is compiled, its scope knows what is available within its template.

* `InputKind` — as what an input of the graph is available;
* `Scope` — the inputs, the tasks and their names, and the inputs that were used so far;
* `Draft` — the templates made so far, and the scope at hand;
* `addTemplate` — a template under its name;
* `Draft.convert` — a task that turns an artifact into a parameter;
* `Draft.parameterFor`, `Draft.artifactFor` — what an input is bound to.
-/

/-- As what an input of a graph is available.  The inputs of the whole pipeline are available as
    both. -/
inductive InputKind where
  | any
  | parameter
  | artifact
deriving Repr, DecidableEq

/-- What is available within the template of a graph. -/
structure Scope where
  /-- The tasks around the graph, from the outermost one inwards. -/
  path : List String
  kinds : Keyed InputKind
  /-- The names of the tasks of the graph, by id. -/
  taskNames : Keyed String := []
  tasks : Registry DagTask
  /-- The inputs that were used as parameters, in the order of their first use. -/
  parameters : List String := []
  /-- The inputs that were used as artifacts, in the order of their first use. -/
  artifacts : List String := []

/-- The templates of the workflow, and the scope of the graph at hand. -/
structure Draft where
  templates : Registry Template
  scope : Scope

/-- The place of a task in the journal. -/
def placeOf (path : List String) : String := "/".intercalate path

/-! ### Templates -/

/-- The file of an input or output below a directory, both of which are settings. -/
def fileOf (s : Settings) (directory name : String) : Except Failure ArtifactFile := do
  let root ← s.text directory
  let file ← s.text "io_file_name"
  pure { name := sanitizeIoName name, path := "/".intercalate [root, sanitizeIoName name, file] }

/-- The file of an input artifact. -/
def inputFile (s : Settings) (name : String) : Except Failure ArtifactFile :=
  fileOf s "container_inputs_dir" name

/-- The file of an output artifact. -/
def outputFile (s : Settings) (name : String) : Except Failure ArtifactFile :=
  fileOf s "container_outputs_dir" name

/-- The container that copies the file of an artifact to the file of a parameter. -/
def conversionTemplate (s : Settings) : Except Failure Template := do
  let input ← inputFile s conversionInput
  let output ← outputFile s conversionOutput
  let image ← s.value "converter_image"
  let command := [
    "sh", "-ec", "mkdir -p \"$(dirname \"$1\")\"; cp \"$0\" \"$1\"",
    braced s!"inputs.artifacts.{conversionInput}.path",
    braced s!"outputs.parameters.{conversionOutput}.path" ]
  pure (.conversion input output { image, command := some command })

/-- The name of a template, which is added when it is new. -/
def addTemplate (s : Settings) (templates : Registry Template) (stem : Except Failure String)
    (path : List String) (t : Template) : Recorded (String × Registry Template) := do
  let checked := s.nameLength.bind fun _ => stem
  let (name, isNew, templates) ← templates.intern Template.record checked t
  if isNew then
    Recorded.log (placeOf path) "DEBUG" "template allocated" [("template", .str name)]
  pure (name, templates)

/-! ### Scopes -/

namespace Scope

/-- Gives every task of a graph its name, in the order of the tasks. -/
def reserveAll (scope : Scope) (order : List String) : Except Failure Scope :=
  order.foldlM (fun scope id => do
    let (name, tasks) ← scope.tasks.reserve id
    pure { scope with tasks, taskNames := Keyed.put scope.taskNames id name }) scope

/-- The scope of a graph whose tasks are compiled in an order. -/
def start (s : Settings) (path : List String) (kinds : Keyed InputKind) (order : List String) :
    Except Failure Scope := do
  unless order.isEmpty do let _ ← s.nameLength
  reserveAll { path, kinds, tasks := .empty s.policy } order

/-- As what the argument of a task is available within the task. -/
def kindOf (scope : Scope) : Option Argument → Except Failure InputKind
  | none | some (.literal _) => .ok .parameter
  | some (.graphInput input _) => Keyed.fetch scope.kinds input
  | some (.taskOutput _) => .ok .artifact

/-- The kinds of the inputs of a component with some arguments. -/
def kindsOf (scope : Scope) (arguments : Keyed Argument) :
    List InputSpec → Except Failure (Keyed InputKind)
  | [] => .ok []
  | input :: rest => do
    let kind ← scope.kindOf (Keyed.find? arguments input.name)
    let others ← scope.kindsOf arguments rest
    pure ((input.name, kind) :: others)

/-- A reference to an output of a task. -/
def taskArtifact (scope : Scope) (source : TaskOutput) : Except Failure Reference :=
  (Keyed.fetch scope.taskNames source.task).map fun name =>
    .taskArtifact name (sanitizeIoName source.output)

/-- A reference to an input of the graph as a parameter. -/
def useParameter (scope : Scope) (input : String) : Reference × Scope :=
  (.parameter (sanitizeIoName input),
    { scope with parameters := insertNew scope.parameters input })

/-- A reference to an input of the graph as an artifact. -/
def useArtifact (scope : Scope) (input : String) : Reference × Scope :=
  (.artifact (sanitizeIoName input), { scope with artifacts := insertNew scope.artifacts input })

end Scope

/-! ### Bindings -/

namespace Draft

/-- Turns an artifact into a parameter.  One task does this for everyone who needs it. -/
def convert (s : Settings) (d : Draft) (source : Reference) (stem : String) :
    Recorded (Reference × Draft) := do
  let template ← conversionTemplate s
  let (template, templates) ←
    addTemplate s d.templates (.ok "convert-artifact-to-parameter") d.scope.path template
  let (name, isNew, tasks) ←
    d.scope.tasks.intern DagTask.record (.ok stem) (.conversion template source)
  if isNew then
    Recorded.log (placeOf d.scope.path) "INFO" "converter task inserted"
      [("converter", .str name), ("source", .str source.text)]
  pure (.taskParameter name conversionOutput, { templates, scope := { d.scope with tasks } })

/-- What an input that is used as a parameter is bound to.  Artifacts are converted. -/
def parameterFor (s : Settings) (d : Draft) : Argument → Recorded (Reference × Draft)
  | .literal text => pure (.constant text, d)
  | .graphInput input _ => do
    match ← Keyed.fetch d.scope.kinds input with
    | .artifact =>
      let (source, scope) := d.scope.useArtifact input
      convert s { d with scope } source s!"convert-{input}"
    | _ =>
      let (value, scope) := d.scope.useParameter input
      pure (value, { d with scope })
  | .taskOutput source => do
    let reference ← d.scope.taskArtifact source
    convert s d reference s!"convert-{source.task}-{source.output}"

/-- What an input that is used as a file is bound to.  There is no file for a parameter. -/
def artifactFor (d : Draft) (inputName : String) :
    Argument → Except Failure (Reference × Draft)
  | .literal _ => .error (.ofCause (.constantArtifact inputName))
  | .graphInput input _ => do
    match ← Keyed.fetch d.scope.kinds input with
    | .parameter => throw (.ofCause (.constantArtifact inputName))
    | _ =>
      let (source, scope) := d.scope.useArtifact input
      pure (source, { d with scope })
  | .taskOutput source => do
    let reference ← d.scope.taskArtifact source
    pure (reference, d)

end Draft

/-- A task while its inputs are bound: its component, its arguments and its place in the
    journal. -/
structure Binder where
  component : Component
  arguments : Keyed Argument
  place : String

namespace Binder

/-- The argument of an input. -/
def argument (b : Binder) (inputName : String) : Recorded Argument := do
  let input ← b.component.fetchInput inputName
  input.argument b.arguments b.place

/-- Binds the inputs that are used as parameters, one after another. -/
def bindParameters (s : Settings) (b : Binder) :
    List String → Draft → Recorded (List (String × Reference) × Draft)
  | [], d => pure ([], d)
  | inputName :: rest, d => do
    let argument ← b.argument inputName
    let (value, d) ← d.parameterFor s argument
    let (others, d) ← b.bindParameters s rest d
    pure ((sanitizeIoName inputName, value) :: others, d)

/-- Binds the inputs that are used as files, one after another. -/
def bindArtifacts (b : Binder) :
    List String → Draft → Recorded (List (String × Reference) × Draft)
  | [], d => pure ([], d)
  | inputName :: rest, d => do
    let argument ← b.argument inputName
    let (source, d) ← d.artifactFor inputName argument
    let (others, d) ← b.bindArtifacts rest d
    pure ((sanitizeIoName inputName, source) :: others, d)

end Binder
end PipelineCompiler.Argo
