import PipelineCompiler.Proofs.Argo.Origin

namespace PipelineCompiler.Argo

/-!
# Data flows as it does in the pipeline

* `Delivers` — the references that begin at an input of a task lead to its origin;
* `Reached` — what is known of the task at a path of a compiled pipeline;
* `GraphReached` — the same for a task that a graph implements, with the tasks of this graph;
* `reached` — every task is reached;
* `compile_preserves_flow` — references lead from every container to the origins of its inputs.

The induction is on paths, inwards.  What is known of a graph are the endings of its own inputs,
and with them the endings of the inputs of its tasks are known.
-/

variable {P : String → Prop} {s : Settings} {c : Component} {texts : Keyed String} {w : Workflow}

/-- The references that begin at an input of the template of a task end where references to the
    data of that input have to end. -/
def Delivers (s : Settings) (c : Component) (texts : Keyed String) (w : Workflow)
    (path site : List String) (name : String) (slot : Slot) : Prop :=
  ∃ origin ending, c.origin? path name = some origin ∧ origin.IsOf c ∧
    ending? s c texts origin = some ending ∧ w.follow? site slot = some ending

/-- What is known of the task at a path: its template is the one that was made of its component,
    and it gets the data of the inputs that were read for it. -/
structure Reached (P : String → Prop) (s : Settings) (c : Component) (texts : Keyed String)
    (w : Workflow) (path site : List String) (here : Placed) (blueprint : Blueprint) : Prop where
  place : c.at? path = some here
  emitted : emittedPath? s c path = some site
  outline : w.outlineAt? site = some blueprint.template.outline
  made : ∃ kinds within templates templates', TemplatesSound P templates ∧
    (componentBlueprint s here.arguments kinds within templates here.component).Yields P
      (blueprint, templates') ∧ Keyed.Within templates'.entries w.templates
  parameters : ∀ name ∈ blueprint.parameters,
    Delivers s c texts w path site name (.parameter (sanitizeIoName name))
  artifacts : ∀ name ∈ blueprint.artifacts,
    Delivers s c texts w path site name (.artifact (sanitizeIoName name))

/-- What is known of a task that a graph implements. -/
structure GraphReached (P : String → Prop) (s : Settings) (c : Component) (texts : Keyed String)
    (w : Workflow) (path site : List String) (here : Placed) (g : Graph) (order : List String)
    (d : Draft) (blueprint : Blueprint) : Prop where
  reached : Reached P s c texts w path site here blueprint
  graph : here.component.implementation = .graph g
  ordered : g.order here.component.inputNames = .ok order
  compiled : GraphCompiled P s g order d blueprint
  stands : StandsIn d w blueprint.template.outline

/-! ### From a graph to its tasks -/

/-- The text of an argument of the workflow is found. -/
theorem RootBound.find? {names : List String} {bindings : List (String × String)}
    (h : RootBound c texts names bindings) (hdistinct : DistinctNames c.inputNames)
    {name : String} (hname : name ∈ names) :
    Keyed.find? bindings (sanitizeIoName name) = some (c.rootTextFor texts name) ∧
      name ∈ c.inputNames := by
  obtain ⟨text, hfind, hmem, rfl⟩ := find?_of_forall₂ hdistinct
    (fun name text => text = c.rootTextFor texts name) h hname
  exact ⟨hfind, hmem⟩

/-- **The pipeline itself is reached.** -/
theorem reached_root (hplain : IsPlain c) {arguments : Keyed Value} {blueprint : Blueprint}
    (h : PipelineCompiled P s c arguments w blueprint) :
    Reached P s c (c.givenTexts arguments) w [] []
      { component := c, arguments := rootArguments c } blueprint := by
  obtain ⟨templates, hyields, -, hwithin⟩ := h.made
  obtain ⟨registry, -, hentries, houtline⟩ := h.named
  obtain ⟨texts, htexts, hparameters, hartifacts⟩ := h.bound
  obtain ⟨rfl, -⟩ := rootTexts_spec htexts
  have hdistinct : DistinctNames c.inputNames := (hplain [] _ rfl).inputs
  -- arguments of the workflow are found by legal names, which are different
  refine ⟨rfl, rfl, ?_, ?_, fun name hname => ?_, fun name hname => ?_⟩
  · rw [Workflow.outlineAt?, Workflow.outline?, ← hentries]
    exact houtline
  · exact ⟨rootKinds c, [], .empty s.policy, templates, templatesSound_empty s,
      hyields, hwithin⟩
  · obtain ⟨hfind, hmem⟩ := hparameters.find? hdistinct hname
    refine ⟨.pipelineInput name, _, origin?_root hmem, hmem, rfl, ?_⟩
    rw [Workflow.follow?, hfind]
    rfl
  · obtain ⟨hfind, hmem⟩ := hartifacts.find? hdistinct hname
    refine ⟨.pipelineInput name, _, origin?_root hmem, hmem, rfl, ?_⟩
    rw [Workflow.follow?, hfind]
    rfl

section Inwards

variable {id : String} {outer site : List String} {around here : Placed} {g : Graph}
  {order : List String} {d : Draft} {blueprint : Blueprint}

/-- A task that a graph implements is known together with the tasks of the graph. -/
theorem Reached.graph (hsep : Separates P)
    (h : Reached P s c texts w outer site around blueprint)
    (hg : around.component.implementation = .graph g) :
    ∃ order d, GraphReached P s c texts w outer site around g order d blueprint := by
  obtain ⟨kinds, within, templates, templates', ht, hyields, hwithin⟩ := h.made
  obtain ⟨order, d, horder, -, rfl, -, hcompiled⟩ :=
    graph_spec hsep hg (fun _ _ inner _ => blueprint_sound hsep inner) ht hyields
  obtain ⟨outputs, htemplate⟩ := hcompiled.template
  refine ⟨order, d, h, hg, horder, hcompiled, fun name => ?_, hwithin⟩
  rw [htemplate]
  show Keyed.find? (d.scope.tasks.entries.map fun entry => (entry.1, entry.2.outline)) name = _
  rw [Keyed.find?_map (fun _ (task : DagTask) => task.outline)]
  rfl

namespace GraphReached

/-- The names of the tasks of a graph. -/
theorem taskNames (h : GraphReached P s c texts w outer site around g order d blueprint) :
    emittedTasks? s around.component = some d.scope.taskNames := by
  rw [emittedTasks?, graph?_eq_some.mpr h.graph, Option.bind_eq_bind, Option.bind_some, h.ordered,
    h.compiled.taskNames]
  rfl

/-- The path of a task of a graph. -/
theorem emittedPath (h : GraphReached P s c texts w outer site around g order d blueprint)
    {name : String} (hname : Keyed.find? d.scope.taskNames id = some name) :
    emittedPath? s c (id :: outer) = some (name :: site) :=
  emittedPath?_cons.mpr ⟨around, _, name, site, h.reached.place, h.taskNames, hname,
    h.reached.emitted, rfl⟩

/-- The output that a task gets is there: some task of the graph declares it. -/
theorem output_isOf (h : GraphReached P s c texts w outer site around g order d blueprint)
    {task : GraphTask} (htask : g.task? id = some task) {entry : String × Argument}
    (hentry : entry ∈ task.arguments) {source : TaskOutput}
    (hsource : entry.2 = .taskOutput source) :
    (Origin.output (source.task :: outer) source.output).IsOf c := by
  obtain ⟨producer, component, hproducer, hspec, hmem⟩ :=
    (order_planned h.ordered).output htask hentry hsource
  exact ⟨{ component, arguments := producer.arguments }, at?_cons.mpr
    ⟨around, g, producer, h.reached.place, h.graph, hproducer, hspec, rfl⟩, hmem⟩

/-- **The data of an input comes from where its argument says**, when the inputs of the graph
    around the task get their data. -/
theorem delivers (h : GraphReached P s c texts w outer site around g order d blueprint)
    (hhere : c.at? (id :: outer) = some here) {name inner : String} {slot : Slot}
    {left : Reference}
    (hresolved : Resolved d (here.component.argumentFor here.arguments name) left)
    (hfollow : w.follow? (inner :: site) slot = endingOf site (w.follow? site) left) :
    Delivers s c texts w (id :: outer) (inner :: site) name slot := by
  have horigin := origin?_cons hhere name
  generalize hargument : here.component.argumentFor here.arguments name = argument
    at hresolved horigin
  cases hresolved with
  | constant text => exact ⟨_, .constant text, horigin, trivial, rfl, hfollow⟩
  | parameter type used =>
    rw [← h.compiled.parameters] at used
    obtain ⟨origin, ending, hfrom, hisOf, hending, hleads⟩ := h.reached.parameters _ used
    exact ⟨origin, ending, horigin.trans hfrom, hisOf, hending, hfollow.trans hleads⟩
  | artifact type used =>
    rw [← h.compiled.artifacts] at used
    obtain ⟨origin, ending, hfrom, hisOf, hending, hleads⟩ := h.reached.artifacts _ used
    exact ⟨origin, ending, horigin.trans hfrom, hisOf, hending, hfollow.trans hleads⟩
  | @output source task found =>
    obtain ⟨_, g', task', haround, hg, htask, -, harguments⟩ := at?_cons.mp hhere
    obtain rfl := Option.some.inj (h.reached.place.symm.trans haround)
    obtain rfl : g = g' := by
      have heq := h.graph.symm.trans hg
      injection heq
    -- an output is no literal, and so it is among the arguments of the task
    obtain ⟨entry, hentry, heq⟩ := argumentFor_mem hargument (fun _ he => nomatch he)
    rw [harguments] at hentry
    refine ⟨_, .output (task :: site) (sanitizeIoName source.output), horigin,
      h.output_isOf htask hentry heq, ?_, hfollow⟩
    rw [ending?, h.emittedPath found]
    rfl

/-- **The tasks of a graph are reached** when the graph is. -/
theorem step (h : GraphReached P s c texts w outer site around g order d blueprint)
    (hplain : PlainAt here) (hhere : c.at? (id :: outer) = some here) :
    ∃ name inner, Reached P s c texts w (id :: outer) (name :: site) here inner := by
  obtain ⟨_, g', task, haround, hg, htask, hspec, harguments⟩ := at?_cons.mp hhere
  obtain rfl := Option.some.inj (h.reached.place.symm.trans haround)
  obtain rfl : g = g' := by
    have heq := h.graph.symm.trans hg
    injection heq
  -- the task was compiled for the graph
  have hid : id ∈ order :=
    ((order_planned h.ordered).mem_iff id).mpr (Keyed.mem_keys_of_find? htask)
  obtain ⟨task', htask', component, kinds, within, templates, inner, templates', hspec', ht,
    hyields, hwithin, hadded⟩ := h.compiled.compiled id hid
  obtain rfl := Option.some.inj (htask.symm.trans htask')
  obtain rfl := Option.some.inj (hspec.symm.trans hspec')
  obtain ⟨name, template, parameters, artifacts, hname, hstep, houtline, hparameters,
    hartifacts⟩ := hadded.exists_step
  have hfound : Keyed.find? blueprint.template.outline.tasks name
      = some (DagTask.step template parameters artifacts).outline := by
    rw [h.stands.tasks, taskOutline?, hstep]
    rfl
  have htemplate := h.stands.outline? houtline
  have hfollow : ∀ slot reference left,
      (DagTask.step template parameters artifacts).outline.text? slot = some reference →
      w.converted? blueprint.template.outline (Reference.read reference) = some left →
      w.follow? (name :: site) slot = endingOf site (w.follow? site) left := by
    intro slot reference left htext hleft
    rw [Workflow.follow?, h.reached.outline]
    simp only [Option.bind_eq_bind, Option.bind_some, hfound, htext, hleft]
  rw [← harguments] at hyields hparameters hartifacts
  refine ⟨name, inner, hhere, h.emittedPath hname, ?_, ?_, fun input hinput => ?_,
    fun input hinput => ?_⟩
  · rw [Workflow.outlineAt?, h.reached.outline]
    simp only [Option.bind_eq_bind, Option.bind_some, hfound]
    exact htemplate
  · exact ⟨kinds, within, templates, templates', ht, hyields, hwithin.trans h.stands.templates⟩
  · obtain ⟨reference, hfind, hbinds⟩ := hparameters.find? hplain.inputs hinput
    obtain ⟨left, hleft, hresolved⟩ := hbinds.resolved h.compiled.sound h.stands
      (fun text htext => hplain.hasNoBraces htext)
    exact h.delivers hhere hresolved (hfollow _ _ left hfind hleft)
  · obtain ⟨reference, hfind, hbinds⟩ := hartifacts.find? hplain.inputs hinput
    obtain ⟨left, hleft, hresolved⟩ := hbinds.resolved h.compiled.sound
    exact h.delivers hhere hresolved (hfollow _ _ left hfind hleft)

end GraphReached
end Inwards

/-- **Every task is reached.** -/
theorem reached (hsep : Separates P) (hplain : IsPlain c) {arguments : Keyed Value}
    {root : Blueprint} (h : PipelineCompiled P s c arguments w root) (path : List String)
    {here : Placed} (hhere : c.at? path = some here) :
    ∃ site blueprint, Reached P s c (c.givenTexts arguments) w path site here blueprint := by
  induction path generalizing here with
  | nil =>
    obtain rfl := Option.some.inj hhere
    exact ⟨[], root, reached_root hplain h⟩
  | cons id outer ih =>
    obtain ⟨around, g, _, haround, hg, -⟩ := at?_cons.mp hhere
    obtain ⟨site, blueprint, hreached⟩ := ih haround
    obtain ⟨order, d, hgraph⟩ := hreached.graph hsep hg
    obtain ⟨name, inner, hinner⟩ := hgraph.step (hplain _ _ hhere) hhere
    exact ⟨name :: site, inner, hinner⟩

/-! ### Containers -/

/-- The references that begin at an input of the template of a task lead to the origin of that
    input, and data with any other origin has another ending. -/
def LeadsToOrigin (s : Settings) (c : Component) (texts : Keyed String) (w : Workflow)
    (path site : List String) (name : String) (slot : Slot) : Prop :=
  ∃ origin ending, c.origin? path name = some origin ∧ origin.IsOf c ∧
    ending? s c texts origin = some ending ∧ w.follow? site slot = some ending ∧
    ∀ other : Origin, other.IsOf c → ending? s c texts other = some ending → other = origin

/-- Data that is delivered has no other origin. -/
theorem Delivers.leadsToOrigin (hplain : IsPlain c) {path site : List String} {name : String}
    {slot : Slot} (h : Delivers s c texts w path site name slot) :
    LeadsToOrigin s c texts w path site name slot := by
  obtain ⟨origin, ending, horigin, hisOf, hending, hfollow⟩ := h
  exact ⟨origin, ending, horigin, hisOf, hending, hfollow, fun other hother h =>
    ending?_inj hplain hisOf hother hending h⟩

/-- What a container gets in a workflow: the inputs of its template are those that its command line
    uses, and the references that begin there lead to their origins. -/
structure ContainerServed (s : Settings) (c : Component) (texts : Keyed String) (w : Workflow)
    (path site : List String) (line : CommandLine) : Prop where
  emitted : emittedPath? s c path = some site
  template : w.outlineAt? site = some
    (.container (line.valueInputs.map sanitizeIoName) (line.pathInputs.map sanitizeIoName))
  values : ∀ name ∈ line.valueInputs,
    LeadsToOrigin s c texts w path site name (.parameter (sanitizeIoName name))
  files : ∀ name ∈ line.pathInputs,
    LeadsToOrigin s c texts w path site name (.artifact (sanitizeIoName name))

/-- What is reached and is a container is served. -/
theorem Reached.served (hplain : IsPlain c) {path site : List String} {here : Placed}
    {blueprint : Blueprint} (h : Reached P s c texts w path site here blueprint)
    {container : Container} (hcontainer : here.component.implementation = .container container) :
    ∃ line, here.component.commandLine here.arguments accessors = .ok line ∧
      ContainerServed s c texts w path site line := by
  obtain ⟨kinds, within, templates, templates', -, hyields, -⟩ := h.made
  -- The component is taken apart, so that the blueprint of a container can be unfolded.
  obtain ⟨⟨implementation, name, description, inputs, outputs, metadata⟩, arguments⟩ := here
  obtain rfl : implementation = .container container := hcontainer
  rw [componentBlueprint, implementationBlueprint] at hyields
  obtain ⟨made, hmade, hyields⟩ := Recorded.yields_bind.mp hyields
  obtain ⟨rfl, rfl⟩ := Recorded.yields_pure_pair hyields
  obtain ⟨line, hline, hparameters, hartifacts, houtline⟩ :=
    containerBlueprint_spec (Recorded.yields_lift.mp hmade)
  rw [hparameters, hartifacts] at houtline
  refine ⟨line, hline, h.emitted, h.outline.trans (congrArg some houtline),
    fun input hinput => ?_, fun input hinput => ?_⟩
  · exact (h.parameters input (hparameters ▸ hinput)).leadsToOrigin hplain
  · exact (h.artifacts input (hartifacts ▸ hinput)).leadsToOrigin hplain

/-- **Data flows as it does in the pipeline.**  Whatever the component, the arguments and the
    configuration are, when there is a workflow of a plain pipeline, every container at any depth
    has a command line, and for every input that it uses the references that begin at the task of
    the container lead to the origin of the input: through conversions, and through the inputs of
    the graphs around it up to the arguments of the workflow. -/
theorem compile_preserves_flow (context : Context) (c : Component) (arguments : Keyed Value)
    (w : Workflow) (hok : (compile context c arguments).result = .ok w)
    (hdigests : (compile context c arguments).SeparatesDigests) (hplain : IsPlain c) :
    ∃ s, context.settings = .ok s ∧ ∀ path here container, c.at? path = some here →
      here.component.implementation = .container container →
      ∃ line site, here.component.commandLine here.arguments accessors = .ok line ∧
        ContainerServed s c (c.givenTexts arguments) w path site line := by
  obtain ⟨s, root, hs, h⟩ := compile_spec hdigests (Recorded.yields_of_result hok)
  refine ⟨s, hs, fun path here container hhere hcontainer => ?_⟩
  obtain ⟨site, blueprint, hreached⟩ := reached hdigests hplain h path hhere
  obtain ⟨line, hline, hserved⟩ := hreached.served hplain hcontainer
  exact ⟨line, site, hline, hserved⟩

/-- What stands at the paths of the example. -/
def samplePlaces : List Placed :=
  [ { component := samplePipeline, arguments := [] },
    { component := sampleProducer, arguments := [] },
    { component := sampleGraph
      arguments := [("y", .taskOutput { task := "p", output := "o" })] },
    { component := sampleConsumer, arguments := [("x", .graphInput "y" .null)] } ]

/-- Nothing else stands there. -/
theorem mem_samplePlaces {path : List String} {here : Placed}
    (h : samplePipeline.at? path = some here) : here ∈ samplePlaces := by
  refine at?_mem List.mem_cons_self (fun around haround g hg entry hentry component hspec => ?_) h
  simp only [List.mem_cons, List.not_mem_nil, or_false] at haround
  -- The root, its two tasks and the task of the inner graph are all the places there are.
  rcases haround with rfl | rfl | rfl | rfl
  · obtain rfl := Implementation.graph.inj hg
    simp only [List.mem_cons, List.not_mem_nil, or_false] at hentry
    rcases hentry with rfl | rfl
    · obtain rfl := Option.some.inj hspec
      simp [sampleTask]
    · obtain rfl := Option.some.inj hspec
      simp [sampleTask]
  · cases hg
  · obtain rfl := Implementation.graph.inj hg
    obtain rfl := List.mem_singleton.mp hentry
    obtain rfl := Option.some.inj hspec
    simp [sampleTask]
  · cases hg

/-- The example is plain. -/
theorem samplePipeline_plain : IsPlain samplePipeline := by
  intro path here hhere
  have hmem := mem_samplePlaces hhere
  simp only [samplePlaces, List.mem_cons, List.not_mem_nil, or_false] at hmem
  rcases hmem with rfl | rfl | rfl | rfl
  · constructor <;> simp [samplePipeline, DistinctNames, Component.inputNames,
      Component.outputNames]
  · constructor <;> simp [sampleProducer, DistinctNames, Component.inputNames,
      Component.outputNames]
  · constructor <;> simp [sampleGraph, DistinctNames, Component.inputNames,
      Component.outputNames]
  · constructor <;> simp [sampleConsumer, DistinctNames, Component.inputNames,
      Component.outputNames]

/-- Data flows through the workflow of the example as it does in the pipeline. -/
theorem samplePipeline_preserves_flow :
    ∃ w s, (compile sampleContext samplePipeline []).result = .ok w ∧
      sampleContext.settings = .ok s ∧ ∀ path here container,
      samplePipeline.at? path = some here →
      here.component.implementation = .container container →
      ∃ line site, here.component.commandLine here.arguments accessors = .ok line ∧
        ContainerServed s samplePipeline (samplePipeline.givenTexts []) w path site line := by
  obtain ⟨w, hw⟩ := samplePipeline_result
  obtain ⟨s, hs, hserved⟩ := compile_preserves_flow sampleContext samplePipeline [] w hw
    (separatesDigests_of_nodup samplePipeline_compiles.2) samplePipeline_plain
  exact ⟨w, s, hw, hs, hserved⟩

end PipelineCompiler.Argo
