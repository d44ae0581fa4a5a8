import PipelineCompiler.Vertex.Draft

namespace PipelineCompiler.Vertex

/-!
# Compiling to pipeline jobs

Jobs have one graph only: the tasks of a pipeline are containers, and a pipeline that is a
container itself is wrapped into a graph.

* `Binder` — a task while its inputs are bound;
* `compileTask`, `compileTasks` — the tasks of the graph;
* `asGraph` — a component as a graph;
* `compile` — the job of a pipeline.
-/

/-- A task while its inputs are bound. -/
structure Binder where
  id : String
  component : Component
  arguments : Keyed Argument
  /-- The inputs of the pipeline, all of which are parameters. -/
  pipelineParameters : List String

namespace Binder

/-- Binds the inputs that are used as parameters, one after another. -/
def bindParameters (b : Binder) :
    List String → Draft → Recorded (Keyed ParameterSource × Draft)
  | [], d => pure ([], d)
  | name :: rest, d => do
    let input ← b.component.fetchInput name
    let argument ← input.argument b.arguments b.id
    let (source, d) ← d.parameterFor input.type b.id argument
    let (others, d) ← b.bindParameters rest d
    pure ((name, source) :: others, d)

/-- Binds the inputs that are used as files, one after another. -/
def bindArtifacts (s : Settings) (b : Binder) :
    List String → Draft → Recorded (Keyed ArtifactSource × Draft)
  | [], d => pure ([], d)
  | name :: rest, d => do
    let input ← b.component.fetchInput name
    let argument ← input.argument b.arguments b.id
    let (source, d) ← d.artifactFor s b.pipelineParameters b.id argument
    let (others, d) ← b.bindArtifacts s rest d
    pure ((name, source) :: others, d)

/-- The command line of the task. -/
def commandLine (b : Binder) (container : Container) : Except Failure CommandLine :=
  Expander.commandLine
    { component := b.component
      arguments := b.arguments
      accessors
      parameters := some (b.component.parameterInputs b.arguments b.pipelineParameters) }
    container

end Binder

/-- The types of inputs that are used as parameters. -/
def typesOf (c : Component) : List String → Except Failure (Keyed PrimitiveType)
  | [] => .ok []
  | name :: rest => do
    let input ← c.fetchInput name
    let others ← typesOf c rest
    pure ((name, PrimitiveType.ofType input.type) :: others)

/-- Adds the task with a container: its executor, its component, its bindings and itself. -/
def addTask (s : Settings) (b : Binder) (container : Container) (d : Draft) :
    Recorded Draft := do
  let line ← b.commandLine container
  let (executor, d) ←
    d.addExecutor s (nameOr b.component.name "executor") (.ofCommandLine container.image line)
  let types ← typesOf b.component line.valueInputs
  let (component, d) ←
    d.addComponent s (nameOr b.component.name "component") b.id
      (.step types line.pathInputs b.component.outputNames executor)
  let (parameters, d) ← b.bindParameters line.valueInputs d
  let (artifacts, d) ← b.bindArtifacts s line.pathInputs d
  let caching ← caching s
  let name ← Keyed.fetch d.taskNames b.id
  Recorded.log b.id "DEBUG" "task compiled" [("component", .str component)]
  let tasks := d.tasks.define name (.step b.id component parameters artifacts caching)
  pure { d with tasks }

/-- Compiles a task, which has to be a container. -/
def compileTask (s : Settings) (pipelineParameters : List String) (id : String)
    (task : GraphTask) (d : Draft) : Recorded Draft :=
  match task.reference.spec with
  | none => throw (.ofCause (.unresolvedReference task.reference.name task.reference.url))
  | some component =>
    match component.implementation with
    | .graph _ => throw (.ofCause (.nestedGraph component.name))
    | .container container =>
      addTask s { id, component, arguments := task.arguments, pipelineParameters } container d

/-- Compiles tasks in an order; a compilation error is attributed to its task. -/
def compileTasks (s : Settings) (g : Graph) (pipelineParameters : List String) :
    List String → Draft → Recorded Draft
  | [], d => pure d
  | id :: rest, d => do
    let task ← Keyed.fetch g.tasks id
    let d ← (compileTask s pipelineParameters id task d).within id
    compileTasks s g pipelineParameters rest d

/-- The outputs of a graph, each with its task and the output of the task. -/
def outputsOf (d : Draft) : List (String × TaskOutput) →
    Except Failure (Keyed (String × String))
  | [] => .ok []
  | (name, source) :: rest => do
    let task ← Keyed.fetch d.taskNames source.task
    let others ← outputsOf d rest
    pure ((name, (task, source.output)) :: others)

/-- The parts of the job of a graph with the inputs and outputs of a component. -/
def compileGraph (s : Settings) (c : Component) (g : Graph) : Recorded (Root × Draft) := do
  let order ← g.order c.inputNames
  unless order.isEmpty do let _ ← s.nameLength
  let d ← (Draft.empty s.policy).reserveAll order
  let d ← compileTasks s g c.inputNames order d
  let parameters ← typesOf c d.parameters
  let outputs ← outputsOf d g.outputValues
  pure ({ parameters, outputs, artifacts := d.artifacts, tasks := d.tasks.entries }, d)

/-- The graph of a component.  A container is the only task of its graph, which has the inputs
    and outputs of the container. -/
def asGraph (c : Component) : Except Failure Graph :=
  match c.implementation with
  | .graph g => .ok g
  | .container _ => do
    let id ← nameOr c.name "component"
    let reference : ComponentReference :=
      { name := c.name, digest := .null, tag := .null, url := .null, spec := some c }
    let arguments := c.inputNames.map fun name => (name, Argument.graphInput name .null)
    let outputValues := c.outputNames.map fun name =>
      (name, ({ task := id, output := name } : TaskOutput))
    pure { tasks := [(id, { reference, arguments, annotations := [] })], outputValues }

/-- The values of the inputs of a pipeline, which come from its caller.  A text that is no
    constant of the type is passed on as a text, with a warning. -/
def rootConstants (c : Component) (texts : Keyed String) :
    Keyed PrimitiveType → Recorded (Keyed Constant)
  | [] => pure []
  | (name, type) :: rest => do
    let input ← c.fetchInput name
    let text ← input.rootText texts
    let (constant, isKept) := Constant.readOr text type
    if isKept then
      Recorded.warn "" <| s!"Pipeline argument \"{name}\"=\"{text}\" is not a valid " ++
        s!"{type.name}; passing it as a string"
    let others ← rootConstants c texts rest
    pure ((name, constant) :: others)

/-- The name under which runs of a pipeline are grouped. -/
def infoName (contextName : String) (maxLength : Option Int := some 128) : String :=
  (NamePolicy.cloud maxLength).sanitize contextName

/-- The job of a pipeline with the arguments of a caller. -/
def compile (context : Context) (c : Component) (arguments : Keyed Value)
    (outputDirectory : String) (contextName : String := "pipeline") : Recorded Job := do
  let s ← context.settings
  let _ ← s.value "max_name_length"
  let g ← asGraph c
  let (root, d) ← compileGraph s c g
  let limit ← s.nameLength
  let sdkVersion ← s.value "sdk_version"
  let schemaVersion ← s.value "schema_version"
  let texts ← c.rootTexts arguments
  let parameters ← rootConstants c texts root.parameters
  Recorded.log "" "INFO" "pipeline job emitted"
    -- Events tell of the parts that were made, before the job is returned.
    [ ("executors", .int d.executors.entries.length),
      ("components", .int d.components.entries.length),
      ("tasks", .int d.tasks.entries.length) ]
  pure { root, parameters, outputDirectory, sdkVersion, schemaVersion
         displayName := c.name.orElse (.str "Pipeline")
         infoName := infoName contextName limit
         executors := d.executors.entries
         components := d.components.entries }

end PipelineCompiler.Vertex
