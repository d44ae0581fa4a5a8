import PipelineCompiler.Argo.Scope

namespace PipelineCompiler.Argo

/-!
# Compiling to workflows

* `Blueprint` — a template that has no name yet, and the inputs it reads;
* `componentBlueprint` — the blueprint of a component, after the templates that it needs;
* `runTasks` — the tasks of a graph, compiled in their order;
* `compile` — the workflow of a pipeline.
-/

/-- A template that has no name yet, and the inputs of the component that it reads. -/
structure Blueprint where
  template : Template
  parameters : List String
  artifacts : List String

/-- The blueprint of a component that a container implements. -/
def containerBlueprint (s : Settings) (c : Component) (container : Container)
    (arguments : Keyed Argument) : Except Failure Blueprint := do
  let line ← Expander.commandLine { component := c, arguments, accessors } container
  let artifacts ← line.pathInputs.mapM (inputFile s)
  let outputs ← c.outputNames.mapM (outputFile s)
  let parameters := line.valueInputs.map sanitizeIoName
  pure { template := .container parameters artifacts outputs (.ofCommandLine container.image line)
         parameters := line.valueInputs
         artifacts := line.pathInputs }

/-- The outputs of a graph, each of which comes from a task. -/
def outputsOf (scope : Scope) :
    List (String × TaskOutput) → Except Failure (List (String × Reference))
  | [] => .ok []
  | (name, source) :: rest => do
    let reference ← scope.taskArtifact source
    let others ← outputsOf scope rest
    pure ((sanitizeIoName name, reference) :: others)

/-- The blueprint of a graph whose tasks are compiled. -/
def graphBlueprint (scope : Scope) (outputValues : List (String × TaskOutput)) :
    Except Failure Blueprint := do
  let outputs ← outputsOf scope outputValues
  let parameters := scope.parameters.map sanitizeIoName
  let artifacts := scope.artifacts.map sanitizeIoName
  pure { template := .dag parameters artifacts outputs scope.tasks.entries
         parameters := scope.parameters
         artifacts := scope.artifacts }

/-- How a task is compiled: it becomes part of the draft. -/
abbrev TaskStep := Draft → Recorded Draft

/-- Compiles tasks in an order; a compilation error is attributed to its task. -/
def runTasks (steps : Keyed TaskStep) : List String → TaskStep
  | [], d => pure d
  | id :: rest, d => do
    let step ← Keyed.fetch steps id
    let d ← (step d).within id
    runTasks steps rest d

/-- Adds the task with a blueprint to the draft: its template, its bindings and itself. -/
def addTask (s : Settings) (id : String) (b : Binder) (path : List String)
    (blueprint : Blueprint) (d : Draft) : Recorded Draft := do
  let (template, templates) ←
    addTemplate s d.templates (nameOr b.component.name "component") path blueprint.template
  let d := { d with templates }
  let (parameters, d) ← b.bindParameters s blueprint.parameters d
  let (artifacts, d) ← b.bindArtifacts blueprint.artifacts d
  let name ← Keyed.fetch d.scope.taskNames id
  Recorded.log b.place "DEBUG" "task compiled"
    [("task", .str name), ("template", .str template)]
  let tasks := d.scope.tasks.define name (.step template parameters artifacts)
  pure { d with scope := { d.scope with tasks } }

mutual

/-- The blueprint of a component for a task with some arguments.  The templates of the tasks in a
    graph come before that of the graph. -/
def componentBlueprint (s : Settings) (arguments : Keyed Argument) (kinds : Keyed InputKind)
    (path : List String) (templates : Registry Template) :
    Component → Recorded (Blueprint × Registry Template)
  | ⟨implementation, name, description, inputs, outputs, metadata⟩ =>
    implementationBlueprint s arguments kinds path templates
      ⟨implementation, name, description, inputs, outputs, metadata⟩ implementation

/-- The blueprint of the component `c` with an implementation. -/
def implementationBlueprint (s : Settings) (arguments : Keyed Argument)
    (kinds : Keyed InputKind) (path : List String) (templates : Registry Template)
    (c : Component) : Implementation → Recorded (Blueprint × Registry Template)
  | .container container => do
    let blueprint ← containerBlueprint s c container arguments
    pure (blueprint, templates)
  | .graph ⟨tasks, outputValues⟩ => do
    let order ← Graph.order ⟨tasks, outputValues⟩ c.inputNames
    let scope ← Scope.start s path kinds order
    let d ← runTasks (taskSteps s tasks) order { templates, scope }
    let blueprint ← graphBlueprint d.scope outputValues
    pure (blueprint, d.templates)

/-- How the tasks of a graph are compiled, by id. -/
def taskSteps (s : Settings) : List (String × GraphTask) → Keyed TaskStep
  | [] => []
  | (id, task) :: rest => (id, taskStep s id task) :: taskSteps s rest

/-- How a task is compiled: its component for its arguments first, then the task itself. -/
def taskStep (s : Settings) (id : String) : GraphTask → TaskStep
  | ⟨⟨_, _, _, _, some component⟩, arguments, _⟩, d => do
    let path := d.scope.path ++ [id]
    let kinds ← d.scope.kindsOf arguments component.inputs
    let (blueprint, templates) ←
      componentBlueprint s arguments kinds path d.templates component
    let binder : Binder := { component, arguments, place := placeOf path }
    addTask s id binder path blueprint { d with templates }
  | ⟨⟨name, _, _, url, none⟩, _, _⟩, _ => throw (.ofCause (.unresolvedReference name url))

end

/-! ### Whole pipelines -/

/-- The texts of inputs of the pipeline, under legal names. -/
def rootBindings (c : Component) (texts : Keyed String) :
    List String → Recorded (List (String × String))
  | [] => pure []
  | name :: rest => do
    let input ← c.fetchInput name
    let text ← input.rootText texts
    let others ← rootBindings c texts rest
    pure ((sanitizeIoName name, text) :: others)

/-- The workflow of a pipeline with the arguments of a caller.  All inputs of the pipeline are
    available as parameters and as artifacts. -/
def compile (context : Context) (c : Component) (arguments : Keyed Value) :
    Recorded Workflow := do
  let s ← context.settings
  let _ ← s.value "max_name_length"
  -- The pipeline is compiled like a task that passes on all of its own inputs.
  let passed := c.inputNames.map fun name => (name, Argument.graphInput name .null)
  let kinds := c.inputNames.map fun name => (name, InputKind.any)
  let (blueprint, templates) ← componentBlueprint s passed kinds [] (.empty s.policy) c
  let (entrypoint, templates) ←
    addTemplate s templates (nameOr c.name "pipeline") [] blueprint.template
  let texts ← c.rootTexts arguments
  let parameters ← rootBindings c texts blueprint.parameters
  let artifacts ← rootBindings c texts blueprint.artifacts
  let limit ← s.length "max_generate_name_length"
  let name ← nameOr c.name ""
  let annotations ← Value.mappingOf (← s.value "workflow_annotations")
  Recorded.log "" "INFO" "workflow emitted"
    [("entrypoint", .str entrypoint), ("templates", .int templates.entries.length)]
  pure { entrypoint, parameters, artifacts, annotations
         generateName := generateName name limit
         templates := templates.entries }

end PipelineCompiler.Argo
