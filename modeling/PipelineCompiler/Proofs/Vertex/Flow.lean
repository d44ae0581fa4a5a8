import PipelineCompiler.Proofs.Vertex.Closure
import PipelineCompiler.Proofs.Vertex.Warnings

namespace PipelineCompiler.Vertex

/-!
# Data flows through jobs as it does in pipelines

* `ArrivesAsFile`, `Arrives` — the argument that counts for an input is what the input is bound
  to;
* `Served` — a task of a job has all that its command line uses;
* `StepOf.served` — a task that was made for a task of the graph is served;
* `FlowPreserved` — all tasks are served, and inputs of the pipeline have their values;
* `job_preserves_flow` — that holds of every job that is made, and every text that had to be kept
  has been warned of.
-/

variable {P : String → Prop} {s : Settings}

/-! ### Arguments that arrive -/

/-- An input is the artifact that a task makes of a parameter. -/
def ArrivesAsFile (s : Settings) (p : Parts) (task : JobTask) (name : String)
    (source : ParameterSource) : Prop :=
  ∃ maker, Keyed.find? task.artifacts name = some (.taskOutput maker conversionOutput) ∧
    MadeFrom s p maker source

/-- The argument that counts for an input arrives at it.  An input of the pipeline is bound as it
    is, or made an artifact of.  An output of a task is an artifact, however it is used.  A literal
    is the constant that it stands for, or an artifact is made of its text. -/
def Arrives (s : Settings) (p : Parts) (names : Keyed String) (t : Step) (task : JobTask)
    (name : String) : Prop :=
  match t.argument name with
  | .graphInput input _ =>
    (name ∈ t.line.valueInputs →
      Keyed.find? task.parameters name = some (.pipelineInput input)) ∧
    (name ∈ t.line.pathInputs → ArrivesAsFile s p task name (.pipelineInput input))
  | .taskOutput source =>
    name ∉ t.line.valueInputs ∧
    ∃ producer, Keyed.find? names source.task = some producer ∧
      Keyed.find? task.artifacts name = some (.taskOutput producer source.output)
  | .literal text =>
    (name ∈ t.line.valueInputs → ∃ constant,
      Keyed.find? task.parameters name = some (.constant constant) ∧
        constant.Stands (t.type name) text) ∧
    (name ∈ t.line.pathInputs → ArrivesAsFile s p task name (.constant (.string text)))

/-- A task of a job serves a task of the graph: it has its name, binds the inputs that its command
    line uses, each as it is used, and the arguments that count for them arrive. -/
structure Served (s : Settings) (names : Keyed String) (j : Job) (t : Step) (name : String)
    (task : JobTask) : Prop where
  named : Keyed.find? names t.id = some name
  emitted : Keyed.find? j.root.tasks name = some task
  title : task.title = t.id
  values : Keyed.keys task.parameters = t.line.valueInputs
  files : Keyed.keys task.artifacts = t.line.pathInputs
  arrive : ∀ input, input ∈ t.line.valueInputs ∨ input ∈ t.line.pathInputs →
    Arrives s j.parts names t task input

/-- What is bound is what arrives. -/
theorem arrives_of_boundBy {p : Parts} {names : Keyed String} {t : Step} {task : JobTask}
    (hvalues : BoundBy t.component t.arguments (fun name => Binds (t.type name))
      t.line.valueInputs task.parameters)
    (hfiles : BoundBy t.component t.arguments (fun _ => BindsFile s p names)
      t.line.pathInputs task.artifacts) {input : String}
    (hused : input ∈ t.line.valueInputs ∨ input ∈ t.line.pathInputs) :
    Arrives s p names t task input := by
  have hvalue : input ∈ t.line.valueInputs → ∃ source,
      Keyed.find? task.parameters input = some source ∧
        Binds (t.type input) (t.argument input) source := hvalues.find?
  have hfile : input ∈ t.line.pathInputs → ∃ source,
      Keyed.find? task.artifacts input = some source ∧
        BindsFile s p names (t.argument input) source := hfiles.find?
  unfold Arrives
  generalize t.argument input = argument at hvalue hfile
  cases argument with
  | graphInput given declared =>
    refine ⟨fun hmem => ?_, fun hmem => ?_⟩
    · obtain ⟨source, hfind, hbinds⟩ := hvalue hmem
      cases hbinds with
      | input => exact hfind
    · obtain ⟨source, hfind, hbinds⟩ := hfile hmem
      cases hbinds with
      | @input _ maker _ made => exact ⟨maker, hfind, made⟩
  | taskOutput source =>
    -- no input parameter is bound to an output, so that the output has to be used as a file
    have hnever : input ∉ t.line.valueInputs := by
      intro hmem
      obtain ⟨source, -, hbinds⟩ := hvalue hmem
      cases hbinds
    obtain ⟨bound, hfind, hbinds⟩ := hfile (hused.resolve_left hnever)
    cases hbinds with
    | @output _ producer found => exact ⟨hnever, producer, found, hfind⟩
  | literal text =>
    refine ⟨fun hmem => ?_, fun hmem => ?_⟩
    · obtain ⟨source, hfind, hbinds⟩ := hvalue hmem
      cases hbinds with
      | constant => exact ⟨_, hfind, readOr_stands _ _⟩
    · obtain ⟨source, hfind, hbinds⟩ := hfile hmem
      cases hbinds with
      | @constant _ maker made => exact ⟨maker, hfind, made⟩

/-- **A task that was made for a task of the graph serves it.** -/
theorem StepOf.served {inputs : List String} {g : Graph} {j : Job} {names : Keyed String}
    {id name : String} {task : GraphTask} {component : Component} {line : CommandLine}
    (htask : g.task? id = some task)
    (h : StepOf s inputs j.parts names id task component line name) :
    ∃ t made, step? inputs g id = some t ∧ Served s names j t name made := by
  obtain ⟨container, hcontainer, hline⟩ := h.commandLine
  obtain ⟨entry, found, parameters, artifacts, caching, hemitted, -, -, hvalues, hfiles⟩ :=
    h.emitted
  exact ⟨_, _, step?_eq_some htask h.spec hcontainer hline, {
    named := h.named
    emitted := hemitted
    title := rfl
    values := hvalues.keys
    files := hfiles.keys
    arrive := fun input hused => arrives_of_boundBy hvalues hfiles hused }⟩

/-! ### Whole jobs -/

/-- Data flows through a job as it does in the pipeline.  Every task of the graph is served by a
    task under its emitted name, no parameter comes from a task, and the values of the pipeline's
    inputs are what the texts that count for them stand for. -/
structure FlowPreserved (s : Settings) (c : Component) (g : Graph) (names : Keyed String)
    (arguments : Keyed Value) (j : Job) : Prop where
  tasks : ∀ id task, g.task? id = some task → ∃ t name made,
    step? c.inputNames g id = some t ∧
    Served s names j t name made
  noOutputs : ∀ entry ∈ j.root.tasks, ∀ parameter ∈ entry.2.parameters, ∀ task output,
    parameter.2 ≠ .taskOutput task output
  inputs : ∀ entry ∈ j.parameters,
    entry.2.Stands (typeOf c entry.1) (c.rootTextFor (c.givenTexts arguments) entry.1)

/-- What is made of a pipeline preserves its flow of data. -/
theorem PipelineCompiled.flowPreserved {c : Component} {arguments : Keyed Value} {g : Graph}
    {order : List String} {job : Job} {d : Draft}
    (h : PipelineCompiled P s c arguments g order job d) :
    FlowPreserved s c g (emittedNames s order) arguments job where
  tasks := by
    intro id task htask
    obtain ⟨component, line, name, hstep⟩ := h.stepAt htask
    obtain ⟨t, made, ht, hserved⟩ := hstep.served htask
    exact ⟨t, name, made, ht, hserved⟩
  noOutputs := by
    rw [h.compiled.tasks]
    intro entry hentry parameter hparameter task output heq
    have hlink := (h.compiled.sound.proper entry hentry).parameters parameter hparameter
    rw [heq] at hlink
    cases hlink
  inputs := by
    rw [h.parameters]
    intro entry hentry
    obtain ⟨name, -, rfl⟩ := List.mem_map.mp hentry
    exact readOr_stands _ _

/-- **Data flows as it does in the pipeline.**  Whatever the graph, the arguments and the
    configuration are, when there is a job every task of the graph has one that serves it, and no
    other texts are passed on than those that are given.  The warnings of the compilation are those
    that its tasks, the arguments of the caller and the inputs of the pipeline deserve. -/
theorem job_preserves_flow (context : Context) (c : Component) (g : Graph)
    (arguments : Keyed Value) (outputDirectory contextName : String) (job : Job)
    (hg : c.implementation = .graph g)
    (hok : (compile context c arguments outputDirectory contextName).result = .ok job)
    (hdigests : (compile context c arguments outputDirectory contextName).SeparatesDigests) :
    ∃ s order, context.settings = .ok s ∧ g.order c.inputNames = .ok order ∧
      FlowPreserved s c g (emittedNames s order) arguments job ∧
      (compile context c arguments outputDirectory contextName).warnings =
        order.flatMap (taskWarnings c.inputNames g) ++ c.strangers arguments ++
          rootWarnings c (c.givenTexts arguments) (Keyed.keys job.root.parameters) := by
  have hgraph : asGraph c = .ok g := by
    unfold asGraph
    rw [hg]
  have hyields := Recorded.yields_of_result hok
  -- What is compiled and what is warned of are read off one run, with one order of tasks.
  obtain ⟨s, g₁, order, d, hs, h⟩ := compile_spec hdigests hyields
  obtain rfl := Except.ok.inj (hgraph.symm.trans h.graph)
  obtain ⟨g₂, order₂, hg₂, horder₂, hwarnings⟩ := compile_warnings hyields
  obtain rfl := Except.ok.inj (hgraph.symm.trans hg₂)
  obtain rfl := Except.ok.inj (h.ordered.symm.trans horder₂)
  exact ⟨s, order, hs, h.ordered, h.flowPreserved, hwarnings⟩

/-- Data flows through the job of the example as it does in the pipeline. -/
theorem samplePipeline_job_preserves_flow :
    ∃ job s order, samplePipeline.implementation = .graph sampleGraph ∧
      (compile sampleContext samplePipeline [] "").result = .ok job ∧
      FlowPreserved s samplePipeline sampleGraph (emittedNames s order) [] job ∧
      (compile sampleContext samplePipeline [] "").warnings =
        order.flatMap (taskWarnings samplePipeline.inputNames sampleGraph) ++
          samplePipeline.strangers [] ++
          rootWarnings samplePipeline (samplePipeline.givenTexts [])
            (Keyed.keys job.root.parameters) := by
  obtain ⟨job, hjob⟩ := samplePipeline_result
  obtain ⟨s, order, -, -, hflow, hwarnings⟩ := job_preserves_flow sampleContext samplePipeline
    sampleGraph [] "" "pipeline" job rfl hjob
    (separatesDigests_of_nodup samplePipeline_compiles.2)
  exact ⟨job, s, order, rfl, hjob, hflow, hwarnings⟩

/-- The number of the example is none. -/
example : taskWarnings samplePipeline.inputNames sampleGraph "q" =
    [("q", "Value \"z\" is not a valid INT; passing it as a string")] := by
  decide +kernel

end PipelineCompiler.Vertex
