import PipelineCompiler.Binding
import PipelineCompiler.Context
import PipelineCompiler.Naming.Registry
import PipelineCompiler.Vertex.Job

namespace PipelineCompiler.Vertex

/-!
# Drafts of pipeline jobs

* `Draft` — the executors, components and tasks made so far, and the inputs of the pipeline that
  were used;
* `addExecutor`, `addComponent` — an executor or a component under its name;
* `Draft.convert` — a task that turns a parameter into an artifact;
* `Draft.parameterFor`, `Draft.artifactFor` — what an input is bound to.
-/

/-- The parts of a job made so far. -/
structure Draft where
  executors : Registry Launch
  components : Registry ComponentEntry
  tasks : Registry JobTask
  /-- The names of the tasks of the graph, by id. -/
  taskNames : Keyed String := []
  /-- The inputs of the pipeline that were used as parameters, in the order of their first
      use. -/
  parameters : List String := []
  /-- The inputs of the pipeline that were used as artifacts, in the order of their first
      use. -/
  artifacts : List String := []

/-- A draft without any parts. -/
def Draft.empty (policy : NamePolicy) : Draft :=
  { executors := .empty policy, components := .empty policy, tasks := .empty policy }

/-- A stem for a name, once it is known how long names may be. -/
def checkedStem (s : Settings) (stem : Except Failure String) : Except Failure String :=
  s.nameLength.bind fun _ => stem

/-- Whether results of earlier runs may be used. -/
def caching (s : Settings) : Except Failure Bool :=
  (s.value "enable_cache").map Value.isTruthy

namespace Draft

/-- Gives every task of the graph its name, in the order of the tasks. -/
def reserveAll (d : Draft) (order : List String) : Except Failure Draft :=
  order.foldlM (fun d id => do
    let (name, tasks) ← d.tasks.reserve id
    pure { d with tasks, taskNames := Keyed.put d.taskNames id name }) d

/-- The name of an executor, which is added when it is new. -/
def addExecutor (s : Settings) (d : Draft) (stem : Except Failure String) (launch : Launch) :
    Recorded (String × Draft) := do
  let (name, _, executors) ← d.executors.intern executorDocument (checkedStem s stem) launch
  pure (name, { d with executors })

/-- The name of a component, which is added when it is new. -/
def addComponent (s : Settings) (d : Draft) (stem : Except Failure String) (place : String)
    (entry : ComponentEntry) : Recorded (String × Draft) := do
  let (name, isNew, components) ←
    d.components.intern ComponentEntry.toValue (checkedStem s stem) entry
  if isNew then
    Recorded.log place "DEBUG" "component allocated" [("component", .str name)]
  pure (name, { d with components })

/-- The container that writes a parameter to the file of an artifact. -/
def conversionLaunch (s : Settings) : Except Failure Launch := do
  let image ← s.value "converter_image"
  let command := [
    "sh", "-ec", "mkdir -p \"$(dirname \"$1\")\"; printf \"%s\" \"$0\" > \"$1\"",
    accessors.parameterValue conversionInput, accessors.outputPath conversionOutput ]
  pure { image, command := some command }

/-- Turns a parameter into an artifact.  One task does this for everyone who needs it. -/
def convert (s : Settings) (d : Draft) (source : ParameterSource) (stem place : String) :
    Recorded (ArtifactSource × Draft) := do
  let launch ← conversionLaunch s
  let (executor, d) ← d.addExecutor s (.ok conversionName) launch
  let (component, d) ← d.addComponent s (.ok conversionName) place (.conversion executor)
  let caching ← caching s
  let (name, isNew, tasks) ←
    d.tasks.intern JobTask.toValue (checkedStem s (.ok stem))
      (.conversion component source caching)
  if isNew then
    Recorded.log place "INFO" "make-artifact task inserted" [("converter", .str name)]
  pure (.taskOutput name conversionOutput, { d with tasks })

/-- What an input parameter with a declared type is bound to.  A text that is no constant of the
    type is passed on as a text, with a warning. -/
def parameterFor (d : Draft) (declared : Value) (place : String) :
    Argument → Recorded (ParameterSource × Draft)
  | .literal text => do
    let type := PrimitiveType.ofType declared
    let (constant, isKept) := Constant.readOr text type
    if isKept then
      Recorded.warn place
        s!"Value \"{text}\" is not a valid {type.name}; passing it as a string"
    pure (.constant constant, d)
  | .graphInput input _ =>
    pure (.pipelineInput input, { d with parameters := insertNew d.parameters input })
  | .taskOutput source => do
    let task ← Keyed.fetch d.taskNames source.task
    pure (.taskOutput task source.output, d)

/-- What an input artifact is bound to.  Literals and parameters of the pipeline are
    converted. -/
def artifactFor (s : Settings) (d : Draft) (pipelineParameters : List String) (place : String) :
    Argument → Recorded (ArtifactSource × Draft)
  | .literal text => convert s d (.constant (.string text)) conversionName place
  | .graphInput input _ =>
    if input ∈ pipelineParameters then
      convert s { d with parameters := insertNew d.parameters input } (.pipelineInput input)
        s!"make-artifact-for-{input}" place
    else pure (.pipelineInput input, { d with artifacts := insertNew d.artifacts input })
  | .taskOutput source => do
    let task ← Keyed.fetch d.taskNames source.task
    pure (.taskOutput task source.output, d)

end Draft
end PipelineCompiler.Vertex
