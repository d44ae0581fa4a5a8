import PipelineCompiler.Argo.Compile
import PipelineCompiler.Build

namespace PipelineCompiler.Argo.Live

/-!
# Workflows on an open context

The builder of workflows as it runs on a context that it shares with others.  It makes the same
parts as `Argo.compile`, but reads every setting where it is needed and notes events as they happen.
Only how names are made is looked up once, when the builder starts.

* `addTemplate`, `convert`, `parameterFor` — a template and a task under their names, a binding;
* `bindParameters`, `bindArtifacts`, `addTask`, `runTasks` — the tasks of a graph;
* `componentBlueprint` — the blueprint of a component, after the templates that it needs;
* `compile` — the workflow of a pipeline.
-/

/-! ### Templates and bindings -/

/-- The name of a template, which is added when it is new.  Names are made by the settings of the
    `start`. -/
def addTemplate (start : Settings) (templates : Registry Template)
    (stem : Except Failure String) (path : List String) (t : Template) :
    Build (String × Registry Template) := do
  let checked := start.nameLength.bind fun _ => stem
  let (name, isNew, templates) ← (templates.intern Template.record checked t).result
  if isNew then
    Build.log (placeOf path) "DEBUG" "template allocated" [("template", .str name)]
  pure (name, templates)

/-- Turns an artifact into a parameter.  One task does this for everyone who needs it. -/
def convert (start : Settings) (d : Draft) (source : Reference) (stem : String) :
    Build (Reference × Draft) := do
  let template ← conversionTemplate (← Build.settings)
  let (template, templates) ←
    addTemplate start d.templates (.ok "convert-artifact-to-parameter") d.scope.path template
  let (name, isNew, tasks) ←
    (d.scope.tasks.intern DagTask.record (.ok stem) (.conversion template source)).result
  if isNew then
    Build.log (placeOf d.scope.path) "INFO" "converter task inserted"
      [("converter", .str name), ("source", .str source.text)]
  pure (.taskParameter name conversionOutput, { templates, scope := { d.scope with tasks } })

/-- What an input that is used as a parameter is bound to.  Artifacts are converted. -/
def parameterFor (start : Settings) (d : Draft) : Argument → Build (Reference × Draft)
  | .literal text => pure (.constant text, d)
  | .graphInput input _ => do
    match ← Keyed.fetch d.scope.kinds input with
    | .artifact =>
      let (source, scope) := d.scope.useArtifact input
      convert start { d with scope } source s!"convert-{input}"
    | _ =>
      let (value, scope) := d.scope.useParameter input
      pure (value, { d with scope })
  | .taskOutput source => do
    let reference ← d.scope.taskArtifact source
    convert start d reference s!"convert-{source.task}-{source.output}"

/-- The argument of an input of a task. -/
def argument (b : Binder) (inputName : String) : Build Argument := do
  let input ← b.component.fetchInput inputName
  Build.argument input b.arguments b.place

/-- Binds the inputs that are used as parameters, one after another. -/
def bindParameters (start : Settings) (b : Binder) :
    List String → Draft → Build (List (String × Reference) × Draft)
  | [], d => pure ([], d)
  | inputName :: rest, d => do
    let found ← argument b inputName
    let (value, d) ← parameterFor start d found
    let (others, d) ← bindParameters start b rest d
    pure ((sanitizeIoName inputName, value) :: others, d)

/-- Binds the inputs that are used as files, one after another. -/
def bindArtifacts (b : Binder) :
    List String → Draft → Build (List (String × Reference) × Draft)
  | [], d => pure ([], d)
  | inputName :: rest, d => do
    let found ← argument b inputName
    let (source, d) ← d.artifactFor inputName found
    let (others, d) ← bindArtifacts b rest d
    pure ((sanitizeIoName inputName, source) :: others, d)

/-! ### Tasks and components -/

/-- How a task is compiled: it becomes part of the draft. -/
abbrev TaskStep := Draft → Build Draft

/-- Compiles tasks in an order; a compilation error is attributed to its task. -/
def runTasks (steps : Keyed TaskStep) : List String → TaskStep
  | [], d => pure d
  | id :: rest, d => do
    let step ← Keyed.fetch steps id
    let d ← Build.within id (step d)
    runTasks steps rest d

/-- Adds the task with a blueprint to the draft: its template, its bindings and itself. -/
def addTask (start : Settings) (id : String) (b : Binder) (path : List String)
    (blueprint : Blueprint) (d : Draft) : Build Draft := do
  let (template, templates) ←
    addTemplate start d.templates (nameOr b.component.name "component") path blueprint.template
  let d := { d with templates }
  let (parameters, d) ← bindParameters start b blueprint.parameters d
  let (artifacts, d) ← bindArtifacts b blueprint.artifacts d
  let name ← Keyed.fetch d.scope.taskNames id
  Build.log b.place "DEBUG" "task compiled" [("task", .str name), ("template", .str template)]
  let tasks := d.scope.tasks.define name (.step template parameters artifacts)
  pure { d with scope := { d.scope with tasks } }

mutual

/-- The blueprint of a component for a task with some arguments.  The templates of the tasks in a
    graph come before that of the graph. -/
def componentBlueprint (start : Settings) (arguments : Keyed Argument) (kinds : Keyed InputKind)
    (path : List String) (templates : Registry Template) :
    Component → Build (Blueprint × Registry Template)
  | ⟨implementation, name, description, inputs, outputs, metadata⟩ =>
    implementationBlueprint start arguments kinds path templates
      ⟨implementation, name, description, inputs, outputs, metadata⟩ implementation

/-- The blueprint of the component `c` with an implementation. -/
def implementationBlueprint (start : Settings) (arguments : Keyed Argument)
    (kinds : Keyed InputKind) (path : List String) (templates : Registry Template)
    (c : Component) : Implementation → Build (Blueprint × Registry Template)
  | .container container => do
    let blueprint ← containerBlueprint (← Build.settings) c container arguments
    pure (blueprint, templates)
  | .graph ⟨tasks, outputValues⟩ => do
    let order ← Graph.order ⟨tasks, outputValues⟩ c.inputNames
    let scope ← Scope.start start path kinds order
    let d ← runTasks (taskSteps start tasks) order { templates, scope }
    let blueprint ← graphBlueprint d.scope outputValues
    pure (blueprint, d.templates)

/-- How the tasks of a graph are compiled, by id. -/
def taskSteps (start : Settings) : List (String × GraphTask) → Keyed TaskStep
  | [] => []
  | (id, task) :: rest => (id, taskStep start id task) :: taskSteps start rest

/-- How a task is compiled: its component for its arguments first, then the task itself. -/
def taskStep (start : Settings) (id : String) : GraphTask → TaskStep
  | ⟨⟨_, _, _, _, some component⟩, arguments, _⟩, d => do
    let path := d.scope.path ++ [id]
    let kinds ← d.scope.kindsOf arguments component.inputs
    let (blueprint, templates) ←
      componentBlueprint start arguments kinds path d.templates component
    let binder : Binder := { component, arguments, place := placeOf path }
    addTask start id binder path blueprint { d with templates }
  | ⟨⟨name, _, _, url, none⟩, _, _⟩, _ => throw (.ofCause (.unresolvedReference name url))

end

/-! ### Whole pipelines -/

/-- The texts of inputs of the pipeline, under legal names. -/
def rootBindings (c : Component) (texts : Keyed String) :
    List String → Build (List (String × String))
  | [] => pure []
  | name :: rest => do
    let input ← c.fetchInput name
    let text ← Build.rootText input texts
    let others ← rootBindings c texts rest
    pure ((sanitizeIoName name, text) :: others)

/-- The workflow of a pipeline with the arguments of a caller. -/
def compile (c : Component) (arguments : Keyed Value) : Build Workflow := do
  let start ← Build.settings
  let _ ← start.value "max_name_length"
  let passed := c.inputNames.map fun name => (name, Argument.graphInput name .null)
  let kinds := c.inputNames.map fun name => (name, InputKind.any)
  let (blueprint, templates) ← componentBlueprint start passed kinds [] (.empty start.policy) c
  let (entrypoint, templates) ←
    addTemplate start templates (nameOr c.name "pipeline") [] blueprint.template
  let texts ← Build.rootTexts c arguments
  let parameters ← rootBindings c texts blueprint.parameters
  let artifacts ← rootBindings c texts blueprint.artifacts
  let limit ← (← Build.settings).length "max_generate_name_length"
  let name ← nameOr c.name ""
  let annotations ← Value.mappingOf (← (← Build.settings).value "workflow_annotations")
  Build.log "" "INFO" "workflow emitted"
    [("entrypoint", .str entrypoint), ("templates", .int templates.entries.length)]
  pure { entrypoint, parameters, artifacts, annotations
         generateName := generateName name limit
         templates := templates.entries }

end PipelineCompiler.Argo.Live
