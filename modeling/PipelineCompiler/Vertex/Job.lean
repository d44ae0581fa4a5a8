import PipelineCompiler.CommandLine
import PipelineCompiler.Graph.Order
import PipelineCompiler.Vertex.Constant

namespace PipelineCompiler.Vertex

/-!
# Pipeline jobs

A pipeline job is one graph of tasks.  A task refers to an entry of the job's components, which
refers to an executor, which is a container.

* `accessors` — how command lines refer to inputs and outputs;
* `ParameterSource`, `ArtifactSource` — what inputs are bound to;
* `ComponentEntry`, `JobTask`, `Root`, `Job` — the parts of a job;
* `Job.toValue` — its document.
-/

/-- A text between double braces, behind the mark of the target. -/
def braced (s : String) : String := "\x7b\x7b$." ++ s ++ "\x7d\x7d"

/-- How command lines refer to inputs and outputs. -/
def accessors : Accessors :=
  { parameterValue := fun input => braced s!"inputs.parameters['{input}']"
    artifactPath := fun input => braced s!"inputs.artifacts['{input}'].path"
    outputPath := fun output => braced s!"outputs.artifacts['{output}'].path"
    artifactValue? := some fun input => braced s!"inputs.artifacts['{input}'].value" }

/-- The stem of all names of the conversion of parameters to artifacts. -/
def conversionName : String := "make-artifact"

/-- The name of the only input of the conversion. -/
def conversionInput : String := "parameter"

/-- The name of the only output of the conversion. -/
def conversionOutput : String := "artifact"

/-- What an input parameter of a task is bound to. -/
inductive ParameterSource where
  | constant (value : Constant)
  | pipelineInput (name : String)
  | taskOutput (task output : String)

/-- What an input artifact of a task is bound to. -/
inductive ArtifactSource where
  | pipelineInput (name : String)
  | taskOutput (task output : String)

/-- A component of a job. -/
inductive ComponentEntry where
  | step (parameters : Keyed PrimitiveType) (artifacts outputs : List String) (executor : String)
  /-- Turns a parameter into an artifact. -/
  | conversion (executor : String)

/-- A task of a job. -/
inductive JobTask where
  | step (id component : String) (parameters : Keyed ParameterSource)
      (artifacts : Keyed ArtifactSource) (caching : Bool)
  /-- Turns a parameter into an artifact. -/
  | conversion (component : String) (source : ParameterSource) (caching : Bool)

/-- The graph of a job. -/
structure Root where
  parameters : Keyed PrimitiveType
  artifacts : List String
  /-- The outputs, each with the task and the output of the task it comes from. -/
  outputs : Keyed (String × String)
  tasks : Keyed JobTask

/-- A pipeline job. -/
structure Job where
  displayName : Value
  infoName : String
  sdkVersion : Value
  schemaVersion : Value
  executors : Keyed Launch
  components : Keyed ComponentEntry
  root : Root
  /-- The values of the inputs of the pipeline. -/
  parameters : Keyed Constant
  outputDirectory : String

/-! ### Parts of components and tasks -/

namespace ComponentEntry

/-- The executor of a component. -/
def executor : ComponentEntry → String
  | .step _ _ _ executor | .conversion executor => executor

/-- The types of the input parameters. -/
def parameters : ComponentEntry → Keyed PrimitiveType
  | .step parameters _ _ _ => parameters
  | .conversion _ => [(conversionInput, .string)]

/-- The names of the input artifacts. -/
def artifacts : ComponentEntry → List String
  | .step _ artifacts _ _ => artifacts
  | .conversion _ => []

/-- The names of the output artifacts. -/
def outputs : ComponentEntry → List String
  | .step _ _ outputs _ => outputs
  | .conversion _ => [conversionOutput]

end ComponentEntry

/-- The task that a parameter comes from. -/
def ParameterSource.producer? : ParameterSource → Option String
  | .taskOutput task _ => some task
  | _ => none

/-- The task that an artifact comes from. -/
def ArtifactSource.producer? : ArtifactSource → Option String
  | .taskOutput task _ => some task
  | .pipelineInput _ => none

namespace JobTask

/-- The component of a task. -/
def component : JobTask → String
  | .step _ component _ _ _ | .conversion component _ _ => component

/-- What the input parameters are bound to. -/
def parameters : JobTask → Keyed ParameterSource
  | .step _ _ parameters _ _ => parameters
  | .conversion _ source _ => [(conversionInput, source)]

/-- What the input artifacts are bound to. -/
def artifacts : JobTask → Keyed ArtifactSource
  | .step _ _ _ artifacts _ => artifacts
  | .conversion _ _ _ => []

/-- The tasks that have to be done before: those that something bound comes from. -/
def dependencies (task : JobTask) : List String :=
  sortedTexts <|
    task.parameters.filterMap (·.2.producer?) ++ task.artifacts.filterMap (·.2.producer?)

end JobTask

/-! ### Documents -/

/-- The document of a parameter type. -/
def typeDocument (type : PrimitiveType) : Value := .ofFields [("type", .str type.name)]

/-- The document of an artifact type, which is the same for all. -/
def artifactDocument : Value :=
  .ofFields [("artifactType", .ofFields [("schemaTitle", .str "system.Artifact")])]

/-- Documents of parameters under a name. -/
def parameterTypes (types : Keyed PrimitiveType) : String × Value :=
  ("parameters", .ofFields (Keyed.mapValues typeDocument types))

/-- Documents of artifacts under a name. -/
def artifactTypes (names : List String) : String × Value :=
  ("artifacts", .ofFields (names.map fun name => (name, artifactDocument)))

/-- The document of an executor. -/
def executorDocument (l : Launch) : Value := .ofFields [("container", .ofFields l.fields)]

/-- The document of a component. -/
def ComponentEntry.toValue (c : ComponentEntry) : Value :=
  let inputs :=
    match c with
    | .step parameters artifacts _ _ => [parameterTypes parameters, artifactTypes artifacts]
    | .conversion _ => [parameterTypes c.parameters]
  .ofFields [
    ("inputDefinitions", .ofFields inputs),
    ("outputDefinitions", .ofFields [artifactTypes c.outputs]),
    ("executorLabel", .str c.executor)]

/-- The document of what a parameter is bound to. -/
def ParameterSource.toValue : ParameterSource → Value
  | .constant value =>
    .ofFields [("runtimeValue", .ofFields [("constantValue", value.toValue)])]
  | .pipelineInput name => .ofFields [("componentInputParameter", .str name)]
  | .taskOutput task output =>
    .ofFields [("taskOutputParameter", .ofFields [
      ("producerTask", .str task), ("outputParameterKey", .str output)])]

/-- The document of what an artifact is bound to. -/
def ArtifactSource.toValue : ArtifactSource → Value
  | .pipelineInput name => .ofFields [("componentInputArtifact", .str name)]
  | .taskOutput task output =>
    .ofFields [("taskOutputArtifact", .ofFields [
      ("producerTask", .str task), ("outputArtifactKey", .str output)])]

/-- What parameters are bound to, as a field. -/
def parameterSources (sources : Keyed ParameterSource) : String × Value :=
  ("parameters", .ofFields (Keyed.mapValues ParameterSource.toValue sources))

/-- What artifacts are bound to, as a field. -/
def artifactSources (sources : Keyed ArtifactSource) : String × Value :=
  ("artifacts", .ofFields (Keyed.mapValues ArtifactSource.toValue sources))

/-- The fields with which a task begins. -/
def taskHead (title component : String) (inputs : Keyed Value) : Keyed Value :=
  [ ("taskInfo", .ofFields [("name", .str title)]),
    ("componentRef", .ofFields [("name", .str component)]),
    ("inputs", .ofFields inputs) ]

/-- The field that says whether results of earlier runs may be used. -/
def cachingField (caching : Bool) : String × Value :=
  ("cachingOptions", .ofFields [("enableCache", .bool caching)])

/-- The document of a task. -/
def JobTask.toValue (task : JobTask) : Value :=
  match task with
  | .step id component parameters artifacts caching =>
    let dependencies :=
      if task.dependencies.isEmpty then []
      else [("dependentTasks", Value.ofTexts task.dependencies)]
    .ofFields <|
      taskHead id component [parameterSources parameters, artifactSources artifacts]
        ++ dependencies ++ [cachingField caching]
  | .conversion component source caching =>
    .ofFields <|
      taskHead conversionName component [parameterSources [(conversionInput, source)]]
        ++ [cachingField caching]

/-- The document of an output of the graph. -/
def outputDocument (source : String × String) : Value :=
  .ofFields [("artifactSelectors", .list [.ofFields [
    ("producerSubtask", .str source.1), ("outputArtifactKey", .str source.2)]])]

/-- The document of the graph. -/
def Root.toValue (r : Root) : Value :=
  .ofFields [
    ("inputDefinitions", .ofFields [parameterTypes r.parameters, artifactTypes r.artifacts]),
    ("outputDefinitions", .ofFields [artifactTypes (Keyed.keys r.outputs)]),
    ("dag", .ofFields [
      ("tasks", .ofFields (Keyed.mapValues JobTask.toValue r.tasks)),
      ("outputs", .ofFields [
        ("artifacts", .ofFields (Keyed.mapValues outputDocument r.outputs))])])]

/-- The document of a job. -/
def Job.toValue (j : Job) : Value :=
  .ofFields [
    ("displayName", j.displayName),
    ("pipelineSpec", .ofFields [
      ("pipelineInfo", .ofFields [("name", .str j.infoName)]),
      ("sdkVersion", j.sdkVersion),
      ("schemaVersion", j.schemaVersion),
      ("deploymentSpec", .ofFields [
        ("executors", .ofFields (Keyed.mapValues executorDocument j.executors))]),
      ("components", .ofFields (Keyed.mapValues ComponentEntry.toValue j.components)),
      ("root", j.root.toValue)]),
    ("runtimeConfig", .ofFields [
      ("parameters", .ofFields (Keyed.mapValues Constant.toValue j.parameters)),
      ("gcsOutputDirectory", .str j.outputDirectory)])]

end PipelineCompiler.Vertex
