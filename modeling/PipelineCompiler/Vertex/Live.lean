import PipelineCompiler.Build
import PipelineCompiler.Vertex.Compile

namespace PipelineCompiler.Vertex.Live

/-!
# Pipeline jobs on an open context

The builder of pipeline jobs as it runs on a context that it shares with others.  It makes the same
parts as `Vertex.compile`, but reads every setting where it is needed and notes events as they
happen.  Only how names are made is looked up once, when the builder starts.

* `addExecutor`, `addComponent`, `convert` — an executor, a component and a task under their
  names;
* `parameterFor`, `artifactFor`, `bindParameters`, `bindArtifacts` — the bindings of a task;
* `addTask`, `compileTask`, `compileTasks`, `compileGraph` — the tasks of the graph;
* `compile` — the job of a pipeline.
-/

/-! ### Parts and bindings -/

/-- The name of an executor, which is added when it is new.  Names are made by the settings of the
    `start`. -/
def addExecutor (start : Settings) (d : Draft) (stem : Except Failure String) (launch : Launch) :
    Build (String × Draft) := do
  let (name, _, executors) ←
    (d.executors.intern executorDocument (checkedStem start stem) launch).result
  pure (name, { d with executors })

/-- The name of a component, which is added when it is new. -/
def addComponent (start : Settings) (d : Draft) (stem : Except Failure String) (place : String)
    (entry : ComponentEntry) : Build (String × Draft) := do
  let (name, isNew, components) ←
    (d.components.intern ComponentEntry.toValue (checkedStem start stem) entry).result
  if isNew then
    Build.log place "DEBUG" "component allocated" [("component", .str name)]
  pure (name, { d with components })

/-- Turns a parameter into an artifact.  One task does this for everyone who needs it. -/
def convert (start : Settings) (d : Draft) (source : ParameterSource) (stem place : String) :
    Build (ArtifactSource × Draft) := do
  let launch ← Draft.conversionLaunch (← Build.settings)
  let (executor, d) ← addExecutor start d (.ok conversionName) launch
  let (component, d) ← addComponent start d (.ok conversionName) place (.conversion executor)
  let caching ← caching (← Build.settings)
  let (name, isNew, tasks) ←
    (d.tasks.intern JobTask.toValue (checkedStem start (.ok stem))
      (.conversion component source caching)).result
  if isNew then
    Build.log place "INFO" "make-artifact task inserted" [("converter", .str name)]
  pure (.taskOutput name conversionOutput, { d with tasks })

/-- What an input parameter with a declared type is bound to.  A text that is no constant of the
    type is passed on as a text, with a warning. -/
def parameterFor (d : Draft) (declared : Value) (place : String) :
    Argument → Build (ParameterSource × Draft)
  | .literal text => do
    let type := PrimitiveType.ofType declared
    let (constant, isKept) := Constant.readOr text type
    if isKept then
      Build.warn place
        s!"Value \"{text}\" is not a valid {type.name}; passing it as a string"
    pure (.constant constant, d)
  | .graphInput input _ =>
    pure (.pipelineInput input, { d with parameters := insertNew d.parameters input })
  | .taskOutput source => do
    let task ← Keyed.fetch d.taskNames source.task
    pure (.taskOutput task source.output, d)

/-- What an input artifact is bound to.  Literals and parameters of the pipeline are
    converted. -/
def artifactFor (start : Settings) (d : Draft) (pipelineParameters : List String)
    (place : String) : Argument → Build (ArtifactSource × Draft)
  | .literal text => convert start d (.constant (.string text)) conversionName place
  | .graphInput input _ =>
    if input ∈ pipelineParameters then
      convert start { d with parameters := insertNew d.parameters input } (.pipelineInput input)
        s!"make-artifact-for-{input}" place
    else pure (.pipelineInput input, { d with artifacts := insertNew d.artifacts input })
  | .taskOutput source => do
    let task ← Keyed.fetch d.taskNames source.task
    pure (.taskOutput task source.output, d)

/-- Binds the inputs that are used as parameters, one after another. -/
def bindParameters (b : Binder) :
    List String → Draft → Build (Keyed ParameterSource × Draft)
  | [], d => pure ([], d)
  | name :: rest, d => do
    let input ← b.component.fetchInput name
    let argument ← Build.argument input b.arguments b.id
    let (source, d) ← parameterFor d input.type b.id argument
    let (others, d) ← bindParameters b rest d
    pure ((name, source) :: others, d)

/-- Binds the inputs that are used as files, one after another. -/
def bindArtifacts (start : Settings) (b : Binder) :
    List String → Draft → Build (Keyed ArtifactSource × Draft)
  | [], d => pure ([], d)
  | name :: rest, d => do
    let input ← b.component.fetchInput name
    let argument ← Build.argument input b.arguments b.id
    let (source, d) ← artifactFor start d b.pipelineParameters b.id argument
    let (others, d) ← bindArtifacts start b rest d
    pure ((name, source) :: others, d)

/-! ### Tasks -/

/-- Adds the task with a container: its executor, its component, its bindings and itself. -/
def addTask (start : Settings) (b : Binder) (container : Container) (d : Draft) : Build Draft := do
  let line ← b.commandLine container
  let (executor, d) ←
    addExecutor start d (nameOr b.component.name "executor") (.ofCommandLine container.image line)
  let types ← typesOf b.component line.valueInputs
  let (component, d) ←
    addComponent start d (nameOr b.component.name "component") b.id
      (.step types line.pathInputs b.component.outputNames executor)
  let (parameters, d) ← bindParameters b line.valueInputs d
  let (artifacts, d) ← bindArtifacts start b line.pathInputs d
  let caching ← caching (← Build.settings)
  let name ← Keyed.fetch d.taskNames b.id
  Build.log b.id "DEBUG" "task compiled" [("component", .str component)]
  let tasks := d.tasks.define name (.step b.id component parameters artifacts caching)
  pure { d with tasks }

/-- Compiles a task, which has to be a container. -/
def compileTask (start : Settings) (pipelineParameters : List String) (id : String)
    (task : GraphTask) (d : Draft) : Build Draft :=
  match task.reference.spec with
  | none => throw (.ofCause (.unresolvedReference task.reference.name task.reference.url))
  | some component =>
    match component.implementation with
    | .graph _ => throw (.ofCause (.nestedGraph component.name))
    | .container container =>
      addTask start { id, component, arguments := task.arguments, pipelineParameters } container d

/-- Compiles tasks in an order; a compilation error is attributed to its task. -/
def compileTasks (start : Settings) (g : Graph) (pipelineParameters : List String) :
    List String → Draft → Build Draft
  | [], d => pure d
  | id :: rest, d => do
    let task ← Keyed.fetch g.tasks id
    let d ← Build.within id (compileTask start pipelineParameters id task d)
    compileTasks start g pipelineParameters rest d

/-- The parts of the job of a graph with the inputs and outputs of a component. -/
def compileGraph (start : Settings) (c : Component) (g : Graph) : Build (Root × Draft) := do
  let order ← g.order c.inputNames
  unless order.isEmpty do let _ ← start.nameLength
  let d ← (Draft.empty start.policy).reserveAll order
  let d ← compileTasks start g c.inputNames order d
  let parameters ← typesOf c d.parameters
  let outputs ← outputsOf d g.outputValues
  pure ({ parameters, outputs, artifacts := d.artifacts, tasks := d.tasks.entries }, d)

/-! ### Whole pipelines -/

/-- The values of the inputs of a pipeline, which come from its caller.  A text that is no
    constant of the type is passed on as a text, with a warning. -/
def rootConstants (c : Component) (texts : Keyed String) :
    Keyed PrimitiveType → Build (Keyed Constant)
  | [] => pure []
  | (name, type) :: rest => do
    let input ← c.fetchInput name
    let text ← Build.rootText input texts
    let (constant, isKept) := Constant.readOr text type
    if isKept then
      Build.warn "" <| s!"Pipeline argument \"{name}\"=\"{text}\" is not a valid " ++
        s!"{type.name}; passing it as a string"
    let others ← rootConstants c texts rest
    pure ((name, constant) :: others)

/-- The job of a pipeline with the arguments of a caller. -/
def compile (c : Component) (arguments : Keyed Value) (outputDirectory : String)
    (contextName : String := "pipeline") : Build Job := do
  let start ← Build.settings
  let _ ← start.value "max_name_length"
  let g ← asGraph c
  let (root, d) ← compileGraph start c g
  let limit ← (← Build.settings).nameLength
  let sdkVersion ← (← Build.settings).value "sdk_version"
  let schemaVersion ← (← Build.settings).value "schema_version"
  let texts ← Build.rootTexts c arguments
  let parameters ← rootConstants c texts root.parameters
  Build.log "" "INFO" "pipeline job emitted"
    [ ("executors", .int d.executors.entries.length),
      ("components", .int d.components.entries.length),
      ("tasks", .int d.tasks.entries.length) ]
  pure { root, parameters, outputDirectory, sdkVersion, schemaVersion
         displayName := c.name.orElse (.str "Pipeline")
         infoName := infoName contextName limit
         executors := d.executors.entries
         components := d.components.entries }

end PipelineCompiler.Vertex.Live
