import Mathlib.Logic.Relation
import PipelineCompiler.Proofs.Argo.Closure
import PipelineCompiler.Proofs.Argo.Run
import PipelineCompiler.Proofs.Argo.Steps

namespace PipelineCompiler

/-!
# References to outputs of tasks

Within a graph template, tasks and outputs refer to the outputs of its tasks.

* `Component.GivesOutputs` — outputs of nested graphs that something refers to have values;
* `Reference.ResolvesIn`, `Template.Resolved` — there is such a task, and its template has such an
  output;
* `Draft.Emits`, `Draft.Placed` — what is known of references, and of the tasks they lead to,
  while a graph is compiled;
* `compile_resolved` — all references in a workflow lead somewhere, under this condition;
* `danglingPipeline_unresolved` — and not without it.

What a nested graph declares to have as outputs is not what its template has: the template has the
outputs for which the graph has values.
-/

/-! ### The outputs of components -/

/-- A component has a task with the other one. -/
def Component.HasTask (c inner : Component) : Prop :=
  ∃ g, c.implementation = .graph g ∧ ∃ entry ∈ g.tasks, entry.2.reference.spec = some inner

/-- What a component gives out: a container everything that is declared, and a graph everything for
    which it has a value. -/
def Component.givenOutputs (c : Component) : List String :=
  match c.implementation with
  | .container _ => c.outputNames
  | .graph g => Keyed.keys g.outputValues

/-- The output of a task that an argument refers to. -/
def Argument.output? : Argument → Option TaskOutput
  | .taskOutput source => some source
  | .literal _ | .graphInput _ _ => none

/-- The outputs of tasks that something in a graph refers to. -/
def Graph.mentioned (g : Graph) : List TaskOutput :=
  (g.tasks.flatMap fun entry => entry.2.arguments.filterMap fun argument => argument.2.output?)
    ++ g.outputValues.map (·.2)

/-- Whatever a graph refers to is given out, if it is declared. -/
def Graph.GivesOutputs (g : Graph) : Prop :=
  ∀ source ∈ g.mentioned, ∀ task ∈ g.task? source.task,
    ∀ component ∈ task.reference.spec,
    source.output ∈ component.outputNames → source.output ∈ component.givenOutputs

instance (g : Graph) : Decidable g.GivesOutputs :=
  inferInstanceAs (Decidable (∀ source ∈ g.mentioned, ∀ _ ∈ _, ∀ _ ∈ _, _ → _))

/-- An output that an argument refers to is mentioned. -/
theorem mem_mentioned_of_argument {g : Graph} {entry : String × GraphTask}
    (hentry : entry ∈ g.tasks)
    {argument : String × Argument} (hargument : argument ∈ entry.2.arguments)
    {source : TaskOutput}
    (heq : argument.2 = .taskOutput source) : source ∈ g.mentioned := by
  refine List.mem_append_left _ (List.mem_flatMap.mpr ⟨entry, hentry, ?_⟩)
  exact List.mem_filterMap.mpr ⟨argument, hargument, by rw [heq]; rfl⟩

/-- **What is mentioned in a planned graph** is an output that the component of a task declares. -/
theorem Planned.mentioned {g : Graph} {inputs order : List String} (h : Planned g inputs order)
    {source : TaskOutput} (hsource : source ∈ g.mentioned) :
    ∃ producer component, g.task? source.task = some producer ∧
      producer.reference.spec = some component ∧ source.output ∈ component.outputNames := by
  refine h.declares ?_
  -- What is mentioned stands in the arguments of a task or in the outputs of the graph.
  rcases List.mem_append.mp hsource with hsource | hsource
  · obtain ⟨entry, hentry, hsource⟩ := List.mem_flatMap.mp hsource
    obtain ⟨argument, hargument, heq⟩ := List.mem_filterMap.mp hsource
    have hnone := h.arguments entry hentry argument hargument
    cases hkind : argument.2 with
    | taskOutput found =>
      rw [hkind] at heq hnone
      obtain rfl := Option.some.inj heq
      exact hnone
    | literal | graphInput =>
      rw [hkind] at heq
      cases heq
  · obtain ⟨output, houtput, rfl⟩ := List.mem_map.mp hsource
    exact h.outputs output houtput

/-- The same for all graphs in a component, at any depth. -/
def Component.GivesOutputs (c : Component) : Prop :=
  ∀ inner g, Relation.ReflTransGen Component.HasTask c inner →
    inner.implementation = .graph g →
    g.GivesOutputs

/-- The components of tasks are within a component. -/
theorem Component.GivesOutputs.inner {c inner : Component} (h : c.GivesOutputs)
    (htask : c.HasTask inner) : inner.GivesOutputs :=
  fun other g hwithin => h other g (.head htask hwithin)

/-- A container has no graphs in it. -/
theorem Component.givesOutputs_of_container {c : Component} {container : Container}
    (himpl : c.implementation = .container container) : c.GivesOutputs := by
  intro inner g hwithin hinner
  rcases hwithin.cases_head with rfl | ⟨mid, ⟨outer, houter, -⟩, -⟩
  · rw [himpl] at hinner
    cases hinner
  · rw [himpl] at houter
    cases houter

/-- A graph has itself in it, and what is in its tasks. -/
theorem Component.givesOutputs_of_graph {c : Component} {g : Graph}
    (himpl : c.implementation = .graph g) (hg : g.GivesOutputs)
    (htasks : ∀ entry ∈ g.tasks, ∀ inner, entry.2.reference.spec = some inner →
      inner.GivesOutputs) : c.GivesOutputs := by
  intro inner found hwithin hinner
  rcases hwithin.cases_head with rfl | ⟨mid, ⟨outer, houter, entry, hentry, hspec⟩, hrest⟩
  · rw [himpl] at hinner
    cases hinner
    exact hg
  · rw [himpl] at houter
    cases houter
    exact htasks entry hentry mid hspec inner found hrest hinner

namespace Argo

variable {P : String → Prop} {s : Settings}

/-! ### References that lead somewhere -/

/-- A reference to an output of a task leads somewhere: the task is one of the graph, and its
    template has the output.  Parameters are outputs of conversions only. -/
def Reference.ResolvesIn (templates : Keyed Template) (tasks : Keyed DagTask) : Reference → Prop
  | .taskArtifact task name => ∃ producer, Keyed.find? tasks task = some producer ∧
      ∃ t, Keyed.find? templates producer.template = some t ∧ name ∈ t.outputArtifacts
  | .taskParameter task name => ∃ converter, Keyed.find? tasks task = some converter ∧
      converter.isConversion = true ∧ name = conversionOutput
  | .constant _ | .parameter _ | .artifact _ => True

/-- All references to outputs of tasks in a template lead somewhere: those in its tasks, and those
    in its own outputs. -/
def Template.Resolved (templates : Keyed Template) : Template → Prop
  | .dag _ _ outputs tasks =>
    (∀ entry ∈ tasks, ∀ reference ∈ entry.2.references,
      reference.ResolvesIn templates tasks) ∧
      ∀ output ∈ outputs, output.2.ResolvesIn templates tasks
  | .container _ _ _ _ | .conversion _ _ _ => True

/-- All references to outputs of tasks in a workflow lead somewhere. -/
def Workflow.Resolved (w : Workflow) : Prop :=
  ∀ entry ∈ w.templates, entry.2.Resolved w.templates

/-- Whether a reference leads somewhere can be looked up. -/
instance (templates : Keyed Template) (tasks : Keyed DagTask) :
    (reference : Reference) → Decidable (reference.ResolvesIn templates tasks)
  | .taskArtifact _ _ => inferInstanceAs (Decidable (∃ _, _ ∧ ∃ _, _ ∧ _))
  | .taskParameter _ _ => inferInstanceAs (Decidable (∃ _, _ ∧ _ ∧ _))
  | .constant _ | .parameter _ | .artifact _ => isTrue trivial

instance (templates : Keyed Template) : (t : Template) → Decidable (t.Resolved templates)
  | .dag _ _ _ _ => inferInstanceAs (Decidable (_ ∧ _))
  | .container _ _ _ _ | .conversion _ _ _ => isTrue trivial

instance (w : Workflow) : Decidable w.Resolved :=
  inferInstanceAs (Decidable (∀ entry ∈ w.templates, entry.2.Resolved w.templates))

/-- Templates that are added change nothing for a template. -/
theorem Template.Resolved.mono {templates templates' : Keyed Template}
    (hw : Keyed.Within templates templates') {t : Template} (h : t.Resolved templates) :
    t.Resolved templates' := by
  have hmono : ∀ {tasks : Keyed DagTask} {r : Reference}, r.ResolvesIn templates tasks →
      r.ResolvesIn templates' tasks := by
    intro tasks r hr
    cases r with
    | taskArtifact task name =>
      obtain ⟨producer, hproducer, t, ht, hname⟩ := hr
      exact ⟨producer, hproducer, t, hw _ _ ht, hname⟩
    | taskParameter => exact hr
    | constant | parameter | artifact => trivial
  cases t with
  | dag parameters artifacts outputs tasks =>
    exact ⟨fun entry hentry r hr => hmono (h.1 entry hentry r hr),
      fun output houtput => hmono (h.2 output houtput)⟩
  | container | conversion => trivial

/-- Templates whose references lead somewhere. -/
def Resolves (templates : Registry Template) : Prop :=
  ∀ entry ∈ templates.entries, entry.2.Resolved templates.entries

/-- **A template that is added or shared** leaves references as they are. -/
theorem Resolves.share {templates templates' : Registry Template} (h : Resolves templates)
    {t : Template} (ht : t.Resolved templates.entries) {name : String}
    (hshared : Registry.Shared P Template.record templates t name templates') :
    Resolves templates' := by
  intro entry hentry
  rcases hshared.entries entry hentry with hold | rfl
  · exact (h entry hold).mono hshared.grows.within
  · exact ht.mono hshared.grows.within

/-! ### The outputs of templates -/

/-- The outputs of a graph refer to the tasks that they come from. -/
theorem outputsOf_spec {scope : Scope} {outputValues : List (String × TaskOutput)}
    {outputs : List (String × Reference)} (h : outputsOf scope outputValues = .ok outputs) :
    List.Forall₂ (fun value output => output.1 = sanitizeIoName value.1 ∧
      scope.taskArtifact value.2 = .ok output.2) outputValues outputs := by
  induction outputValues generalizing outputs with
  | nil =>
    obtain rfl := Except.ok.inj h
    exact .nil
  | cons value rest ih =>
    obtain ⟨name, source⟩ := value
    obtain ⟨reference, hreference, h⟩ := bind_eq_ok.mp h
    obtain ⟨others, hothers, h⟩ := bind_eq_ok.mp h
    obtain rfl := pure_eq_ok.mp h
    exact .cons ⟨rfl, hreference⟩ (ih hothers)

/-- **The template of a component has the outputs that the component gives out.** -/
theorem blueprint_outputs {c : Component} {arguments : Keyed Argument} {kinds : Keyed InputKind}
    {path : List String} {templates templates' : Registry Template} {blueprint : Blueprint}
    (hyields : (componentBlueprint s arguments kinds path templates c).Yields P
      (blueprint, templates')) :
    blueprint.template.outputArtifacts = c.givenOutputs.map sanitizeIoName := by
  -- The two sorts of templates write their outputs in different ways.
  unfold Component.givenOutputs
  cases himpl : c.implementation with
  | container container =>
    obtain ⟨-, h⟩ := container_runs himpl hyields
    obtain ⟨line, -, h⟩ := bind_eq_ok.mp h
    obtain ⟨artifacts, -, h⟩ := bind_eq_ok.mp h
    obtain ⟨outputs, houtputs, h⟩ := bind_eq_ok.mp h
    obtain rfl := pure_eq_ok.mp h
    exact names_of_mapM_fileOf houtputs
  | graph g =>
    obtain ⟨order, scope, d, -, -, -, -, h⟩ := graph_run himpl hyields
    obtain ⟨outputs, houtputs, h⟩ := bind_eq_ok.mp h
    obtain rfl := pure_eq_ok.mp h
    have hnames : List.Forall₂ (· = ·) (outputs.map (·.1))
        ((Keyed.keys g.outputValues).map sanitizeIoName) := by
      unfold Keyed.keys
      rw [List.map_map, List.forall₂_map_left_iff, List.forall₂_map_right_iff]
      exact (outputsOf_spec houtputs).flip.imp fun _ _ h => h.1
    exact List.forall₂_eq_eq_eq ▸ hnames

/-! ### References while a graph is compiled -/

variable {d d' : Draft}

/-- Where a reference in a task of the graph comes from: an output of a task is one that something
    refers to, and a parameter is the output of a conversion. -/
def Draft.Emits (mentioned : TaskOutput → Prop) (d : Draft) : Reference → Prop
  | .taskArtifact task name => ∃ source, mentioned source ∧
      Keyed.find? d.scope.taskNames source.task = some task ∧ name = sanitizeIoName source.output
  | .taskParameter task name => ∃ converter,
      Keyed.find? d.scope.tasks.entries task = some converter ∧ converter.isConversion = true ∧
        name = conversionOutput
  | .constant _ | .parameter _ | .artifact _ => True

/-- What holds of the templates and of the references in tasks while a graph is compiled. -/
structure Draft.Refers (mentioned : TaskOutput → Prop) (d : Draft) : Prop where
  templates : Resolves d.templates
  emitted : ∀ entry ∈ d.scope.tasks.entries, ∀ reference ∈ entry.2.references,
    d.Emits mentioned reference

variable {mentioned : TaskOutput → Prop}

/-- A reference keeps coming from where it came from. -/
theorem Draft.Emits.mono (hgrows : d.Grows d') {reference : Reference}
    (h : d.Emits mentioned reference) : d'.Emits mentioned reference := by
  cases reference with
  | taskArtifact task name =>
    obtain ⟨source, hsource, htask, hname⟩ := h
    exact ⟨source, hsource, hgrows.taskNames ▸ htask, hname⟩
  | taskParameter task name =>
    obtain ⟨converter, htask, hconversion⟩ := h
    exact ⟨converter, hgrows.tasks.within _ _ htask, hconversion⟩
  | constant | parameter | artifact => trivial

/-- A conversion refers to the artifact that it converts. -/
theorem Draft.Converted.refers {source : Reference} {name : String}
    (h : d.Converted P s source name d') (hrefers : d.Refers mentioned)
    (hsource : d.Emits mentioned source) :
    d'.Refers mentioned ∧ d'.Emits mentioned (.taskParameter name conversionOutput) := by
  have hgrows := h.grows
  obtain ⟨t, template, templates, tasks, ht, htemplate, htask, rfl⟩ := h.exists_shared
  have hresolved : t.Resolved d.templates.entries := by
    have houtline := conversionTemplate_outline ht
    cases t with
    | dag => cases houtline
    | container | conversion => trivial
  -- All tasks refer as before; only the conversion may be new, and its one reference is to the
  -- source.
  refine ⟨⟨hrefers.templates.share hresolved htemplate, fun entry hentry r hr => ?_⟩, ?_⟩
  · refine Draft.Emits.mono hgrows ?_
    rcases htask.entries entry hentry with hold | rfl
    · exact hrefers.emitted entry hold r hr
    · obtain rfl : r = source := by
        simpa [DagTask.references, DagTask.parameters, DagTask.artifacts] using hr
      exact hsource
  · obtain ⟨found, hfind, hsame⟩ := htask.found
    exact ⟨found, hfind, isConversion_of_sameRecord hsame, rfl⟩

/-- A binding refers to what its argument refers to. -/
theorem Draft.BindsValue.refers {argument : Argument} {reference : Reference}
    (h : d.BindsValue P s argument reference d')
    (hmentioned : ∀ source, argument = .taskOutput source → mentioned source)
    (hrefers : d.Refers mentioned) : d'.Refers mentioned ∧ d'.Emits mentioned reference := by
  cases h with
  | constant => exact ⟨hrefers, trivial⟩
  | input => exact ⟨⟨hrefers.templates, hrefers.emitted⟩, trivial⟩
  | convertedInput _ _ converted =>
    exact converted.refers ⟨hrefers.templates, hrefers.emitted⟩ trivial
  | convertedOutput found converted =>
    exact converted.refers hrefers ⟨_, hmentioned _ rfl, found, rfl⟩

/-- A binding of a file refers to what its argument refers to. -/
theorem Draft.BindsFile.refers {argument : Argument} {reference : Reference}
    (h : d.BindsFile argument reference d')
    (hmentioned : ∀ source, argument = .taskOutput source → mentioned source)
    (hrefers : d.Refers mentioned) : d'.Refers mentioned ∧ d'.Emits mentioned reference := by
  cases h with
  | input => exact ⟨⟨hrefers.templates, hrefers.emitted⟩, trivial⟩
  | output found => exact ⟨hrefers, ⟨_, hmentioned _ rfl, found, rfl⟩⟩

/-- The bindings of a task refer to what its arguments refer to. -/
theorem Draft.BindsAll.refers {binds : Draft → Argument → Reference → Draft → Prop}
    {b : Binder}
    {names : List String} {bindings : List (String × Reference)}
    (h : Draft.BindsAll binds b d names bindings d')
    (hgrows : ∀ d argument reference d', binds d argument reference d' → d.Grows d')
    (hbinds : ∀ d argument reference d', binds d argument reference d' →
      (∀ source, argument = .taskOutput source → mentioned source) → d.Refers mentioned →
        d'.Refers mentioned ∧ d'.Emits mentioned reference)
    (hmentioned : ∀ entry ∈ b.arguments, ∀ source, entry.2 = .taskOutput source →
      mentioned source)
    (hrefers : d.Refers mentioned) :
    d'.Refers mentioned ∧ ∀ binding ∈ bindings, d'.Emits mentioned binding.2 := by
  -- By induction on the bindings; a reference stays good while tasks and templates are added.
  induction h with
  | nil => exact ⟨hrefers, fun _ hbinding => nomatch hbinding⟩
  | @cons d d₁ d₂ name names reference bindings _ first rest _ ih =>
    obtain ⟨hrefers₁, hfirst⟩ := hbinds _ _ _ _ first (fun source hsource => by
      obtain ⟨entry, hentry, heq⟩ := argumentFor_mem hsource (by simp)
      exact hmentioned entry hentry source heq) hrefers
    obtain ⟨hrefers₂, hrest⟩ := ih hrefers₁
    refine ⟨hrefers₂, fun binding hbinding => ?_⟩
    rcases List.mem_cons.mp hbinding with rfl | hbinding
    · exact hfirst.mono (rest.grows hgrows)
    · exact hrest binding hbinding

/-- **A task refers to what its arguments refer to.** -/
theorem Draft.AddsTask.refers {id : String} {b : Binder} {blueprint : Blueprint}
    (h : d.AddsTask P s id b blueprint d')
    (hmentioned : ∀ entry ∈ b.arguments, ∀ source, entry.2 = .taskOutput source →
      mentioned source)
    (hresolved : blueprint.template.Resolved d.templates.entries)
    (hrefers : d.Refers mentioned) : d'.Refers mentioned := by
  cases h with
  | @intro template name templates d₁ d₂ parameters artifacts shared values files named isNew =>
    have hstart : Draft.Refers mentioned { d with templates } :=
      ⟨hrefers.templates.share hresolved shared, hrefers.emitted⟩
    obtain ⟨hrefers₁, hparameters⟩ := values.refers (fun _ _ _ _ hbinds => hbinds.grows)
      (fun _ _ _ _ hbinds => hbinds.refers) hmentioned hstart
    obtain ⟨hrefers₂, hartifacts⟩ := files.refers (fun _ _ _ _ hbinds => hbinds.grows)
      (fun _ _ _ _ hbinds => hbinds.refers) hmentioned hrefers₁
    have hgrows := files.grows fun _ _ _ _ hbinds => hbinds.grows
    have hdefine : d₂.Grows { d₂ with scope := { d₂.scope with
        tasks := d₂.scope.tasks.define name (.step template parameters artifacts) } } :=
      Draft.grows_withTasks (Registry.define_grows isNew _)
    refine ⟨hrefers₂.templates, fun entry hentry r hr => Draft.Emits.mono hdefine ?_⟩
    -- What was written down before refers as before; only the new task is to be looked at, and its
    -- references come from its two kinds of bindings.
    change entry ∈ (d₂.scope.tasks.define name _).entries at hentry
    rw [Registry.define_entries isNew] at hentry
    rcases List.mem_append.mp hentry with hentry | hentry
    · exact hrefers₂.emitted entry hentry r hr
    · obtain rfl := List.mem_singleton.mp hentry
      obtain ⟨binding, hbinding, rfl⟩ := List.mem_map.mp hr
      rcases List.mem_append.mp hbinding with hbinding | hbinding
      · exact (hparameters binding hbinding).mono hgrows
      · exact hartifacts binding hbinding

/-- A component whose templates have no dangling references, whatever it is compiled for. -/
def CompilesResolved (P : String → Prop) (s : Settings) (c : Component) : Prop :=
  ∀ arguments kinds path templates blueprint templates', TemplatesSound P templates →
    Resolves templates →
      (componentBlueprint s arguments kinds path templates c).Yields P (blueprint, templates') →
        Resolves templates' ∧ blueprint.template.Resolved templates'.entries

/-- **The tasks of a graph** refer to what their arguments refer to. -/
theorem Draft.Runs.refers {tasks : List (String × GraphTask)} {order : List String}
    (h : Draft.Runs P s tasks order d d')
    (hinner : ∀ entry ∈ tasks, ∀ inner, entry.2.reference.spec = some inner →
      CompilesResolved P s inner)
    (hmentioned : ∀ entry ∈ tasks, ∀ argument ∈ entry.2.arguments, ∀ source,
      argument.2 = .taskOutput source → mentioned source)
    (hrefers : d.Refers mentioned) : d'.Refers mentioned := by
  -- By induction on the run: the template of each task is there before its references are.
  induction h with
  | nil => exact hrefers
  | @cons d d₁ d₂ id rest task component kinds blueprint templates found spec
      _ before made sound
      added _ ih =>
    have hmem := Keyed.mem_of_find? found
    obtain ⟨htemplates, hresolved⟩ :=
      hinner _ hmem component spec _ _ _ _ _ _ before hrefers.templates made
    exact ih (added.refers (hmentioned _ hmem) hresolved ⟨htemplates, fun entry hentry r hr =>
      Draft.Emits.mono (Draft.grows_withTemplates sound.grows)
        (hrefers.emitted entry hentry r hr)⟩)

/-! ### Tasks that references lead to -/

/-- A task stands in the draft under its name, with a template that has the outputs which its
    component gives out. -/
def Draft.Placed (tasks : List (String × GraphTask)) (d : Draft) (id : String) : Prop :=
  ∃ task component name producer t, Keyed.find? tasks id = some task ∧
    task.reference.spec = some component ∧ Keyed.find? d.scope.taskNames id = some name ∧
    Keyed.find? d.scope.tasks.entries name = some producer ∧
    Keyed.find? d.templates.entries producer.template = some t ∧
    t.outputArtifacts = component.givenOutputs.map sanitizeIoName

/-- A task stays where it stands. -/
theorem Draft.Placed.mono {tasks : List (String × GraphTask)} (hgrows : d.Grows d') {id : String}
    (h : d.Placed tasks id) : d'.Placed tasks id := by
  obtain ⟨task, component, name, producer, t, htask, hspec, hname, hproducer, ht, houtputs⟩ := h
  exact ⟨task, component, name, producer, t, htask, hspec, hgrows.taskNames ▸ hname,
    hgrows.tasks.within _ _ hproducer, hgrows.templates.within _ _ ht, houtputs⟩

/-- A task that was added stands in the draft. -/
theorem Draft.AddsTask.placed {id : String} {b : Binder} {blueprint : Blueprint}
    (h : d.AddsTask P s id b blueprint d') :
    ∃ name producer t, Keyed.find? d'.scope.taskNames id = some name ∧
      Keyed.find? d'.scope.tasks.entries name = some producer ∧
      Keyed.find? d'.templates.entries producer.template = some t ∧
      SameRecord Template.record t blueprint.template := by
  cases h with
  | @intro template name templates d₁ d₂ parameters artifacts shared values files named isNew =>
    obtain ⟨t, ht, hsame⟩ := shared.found
    have hgrows := (values.grows fun _ _ _ _ hbinds => hbinds.grows).trans
      (files.grows fun _ _ _ _ hbinds => hbinds.grows)
    exact ⟨name, _, t, named, Keyed.find?_put_self _ _ _, hgrows.templates.within _ _ ht, hsame⟩

/-- **The tasks of a graph** stand in the draft in the end. -/
theorem Draft.Runs.placed {tasks : List (String × GraphTask)}
    {order : List String} (h : Draft.Runs P s tasks order d d') :
    ∀ id ∈ order, d'.Placed tasks id := by
  induction h with
  | nil => exact fun _ hid => nomatch hid
  | @cons d d₁ d₂ id rest task component kinds blueprint templates found spec
      _ before made sound
      added runs ih =>
    intro other hother
    rcases List.mem_cons.mp hother with rfl | hother
    · obtain ⟨name, producer, t, hname, hproducer, ht, hsame⟩ := added.placed
      refine Draft.Placed.mono runs.grows
        ⟨task, component, name, producer, t, found, spec, hname, hproducer, ht, ?_⟩
      rw [outputArtifacts_of_sameRecord hsame, blueprint_outputs made]
    · exact ih other hother

/-! ### Graphs and workflows -/

/-- A reference to an output of a task leads somewhere, when the graph is planned and everything
    that it refers to is given out. -/
theorem Draft.Emits.resolves {g : Graph} {inputs order : List String}
    (hplanned : Planned g inputs order) (hgiven : g.GivesOutputs)
    (hplaced : ∀ id ∈ order, d.Placed g.tasks id) {reference : Reference}
    (h : d.Emits (· ∈ g.mentioned) reference) :
    reference.ResolvesIn d.templates.entries d.scope.tasks.entries := by
  -- Only references to outputs of tasks need the plan.
  cases reference with
  | taskArtifact task name =>
    obtain ⟨source, hsource, hname, rfl⟩ := h
    obtain ⟨producer, component, hproducer, hspec, hdeclared⟩ := hplanned.mentioned hsource
    have hid : source.task ∈ order :=
      (hplanned.mem_iff _).mpr (Keyed.mem_keys_of_find? hproducer)
    obtain ⟨producer', component', name', task', t, hproducer', hspec', hname', htask,
      ht, houtputs⟩ :=
      hplaced _ hid
    obtain rfl : producer = producer' := Option.some.inj (hproducer.symm.trans hproducer')
    obtain rfl : component = component' := Option.some.inj (hspec.symm.trans hspec')
    obtain rfl : task = name' := Option.some.inj (hname.symm.trans hname')
    refine ⟨task', htask, t, ht, ?_⟩
    rw [houtputs]
    exact List.mem_map_of_mem (hgiven source hsource producer hproducer component hspec hdeclared)
  | taskParameter => exact h
  | constant | parameter | artifact => trivial

/-- **Components, to any depth, have no dangling references**, if everything that their graphs
    refer to is given out. -/
theorem blueprint_resolved (hsep : Separates P) (c : Component) (hgiven : c.GivesOutputs) :
    CompilesResolved P s c := by
  -- By induction on components: a container has no tasks, and in a graph the templates of its tasks
  -- have been made by then.
  induction c using Component.nesting with
  | container c container himpl =>
    intro arguments kinds path templates blueprint templates' ht hresolves hyields
    obtain ⟨rfl, h⟩ := container_runs himpl hyields
    obtain ⟨line, -, -, -, houtline⟩ := containerBlueprint_spec h
    refine ⟨hresolves, ?_⟩
    cases htemplate : blueprint.template with
    | dag =>
      rw [htemplate] at houtline
      cases houtline
    | container | conversion => trivial
  | graph c g himpl ih =>
    intro arguments kinds path templates blueprint templates' ht hresolves hyields
    obtain ⟨order, scope, d, horder, hscope, hruns, -, rfl, h⟩ :=
      graph_runs hsep himpl ht hyields
    obtain ⟨outputs, houtputs, h⟩ := bind_eq_ok.mp h
    obtain rfl := pure_eq_ok.mp h
    have hplanned := order_planned horder
    have hinner : ∀ entry ∈ g.tasks, ∀ inner, entry.2.reference.spec = some inner →
        CompilesResolved P s inner := fun entry hentry inner hspec =>
      ih entry hentry inner hspec (hgiven.inner ⟨g, himpl, entry, hentry, hspec⟩)
    have hrefers : d.Refers (· ∈ g.mentioned) := hruns.refers hinner
      (fun entry hentry argument hargument source => mem_mentioned_of_argument hentry hargument)
      ⟨hresolves, fun entry hentry => by
        obtain ⟨names, a, -, rfl⟩ := start_eq hscope
        cases hentry⟩
    have hplaced := hruns.placed
    have hall : ∀ {reference}, d.Emits (· ∈ g.mentioned) reference →
        reference.ResolvesIn d.templates.entries d.scope.tasks.entries :=
      Draft.Emits.resolves hplanned (hgiven c g .refl himpl) hplaced
    refine ⟨hrefers.templates, fun entry hentry r hr => hall (hrefers.emitted entry hentry r hr),
      fun output houtput => hall ?_⟩
    obtain ⟨value, hvalue, -, hreference⟩ :=
      exists_left_of_mem (outputsOf_spec houtputs) houtput
    obtain ⟨task, htask, heq⟩ := taskArtifact_eq_ok.mp hreference
    rw [heq]
    exact ⟨value.2, List.mem_append_right _ (List.mem_map_of_mem hvalue), htask, rfl⟩

/-- **References to outputs of tasks lead somewhere**, at any depth: the task is one of the same
    graph, its own template has the output, and a parameter is the output of a conversion in the
    same graph.  This needs every output that something refers to to be given out by the component
    of its task, and different texts whose digests were taken to have different digests. -/
theorem compile_resolved (context : Context) (c : Component) (arguments : Keyed Value)
    (hgiven : c.GivesOutputs) (w : Workflow)
    (hw : (compile context c arguments).result = .ok w)
    (hsep : (compile context c arguments).SeparatesDigests) : w.Resolved := by
  obtain ⟨s, blueprint, templates, templates', -, hblueprint, -, hshared, hentries, -⟩ :=
    compile_shared hsep (Recorded.yields_of_result hw)
  obtain ⟨hresolves, hresolved⟩ := blueprint_resolved hsep c hgiven _ _ _ _ _ _
    (templatesSound_empty s) (fun _ hentry => nomatch hentry) hblueprint
  have hall := hresolves.share hresolved hshared
  unfold Workflow.Resolved
  rw [← hentries]
  exact hall

/-! ### Nested graphs with and without values for their outputs -/

/-- A graph around the producer, with some outputs of its own. -/
def producerGraph (outputValues : List (String × TaskOutput)) : Component :=
  { implementation := .graph { tasks := [("p", sampleTask sampleProducer [])], outputValues }
    name := .str "b", description := .null, inputs := [], outputs := [{ name := "o" }]
    metadata := [] }

/-- A pipeline that gives out an output of the graph around the producer. -/
def outputPipeline (outputValues : List (String × TaskOutput)) : Component :=
  { implementation := .graph
      { tasks := [("q", sampleTask (producerGraph outputValues) [])]
        outputValues := [("r", { task := "q", output := "o" })] }
    name := .str "c", description := .null, inputs := [], outputs := [], metadata := [] }

/-- The graph has a value for its output, which is an output of the producer. -/
def resolvedPipeline : Component := outputPipeline [("o", { task := "p", output := "o" })]

/-- The graph declares an output and has no value for it. -/
def danglingPipeline : Component := outputPipeline []

/-- There is a workflow of the first pipeline, and all digests on the way to it are different. -/
theorem resolvedPipeline_compiles :
    (compile sampleContext resolvedPipeline []).result.toOption.isSome = true ∧
      ((compile sampleContext resolvedPipeline []).digested.map Digest.sha256Hex).Nodup := by
  decide +kernel

/-- Everything that something refers to in the first pipeline is given out. -/
theorem resolvedPipeline_gives : resolvedPipeline.GivesOutputs := by
  refine Component.givesOutputs_of_graph rfl (by decide) fun entry hentry inner hspec => ?_
  obtain rfl := List.mem_singleton.mp hentry
  obtain rfl := Option.some.inj hspec
  refine Component.givesOutputs_of_graph rfl (by decide) fun entry hentry inner hspec => ?_
  obtain rfl := List.mem_singleton.mp hentry
  obtain rfl := Option.some.inj hspec
  exact Component.givesOutputs_of_container rfl

/-- All references in the workflow of the first pipeline lead somewhere. -/
theorem resolvedPipeline_resolved :
    ∃ w, (compile sampleContext resolvedPipeline []).result = .ok w ∧ w.Resolved := by
  obtain ⟨w, hw⟩ := Option.isSome_iff_exists.mp resolvedPipeline_compiles.1
  have hresult := toOption_eq_some.mp hw
  exact ⟨w, hresult, compile_resolved sampleContext resolvedPipeline [] resolvedPipeline_gives w
    hresult (separatesDigests_of_nodup resolvedPipeline_compiles.2)⟩

/-- **The second pipeline has a workflow, and a reference in it leads nowhere**: the output of the
    pipeline refers to an output that the template of the nested graph does not have. -/
theorem danglingPipeline_unresolved :
    ∃ w, (compile sampleContext danglingPipeline []).result = .ok w ∧ ¬ w.Resolved := by
  have hfalse : ((compile sampleContext danglingPipeline []).result.toOption.map fun w =>
      decide w.Resolved) = some false := by
    decide +kernel
  obtain ⟨w, hw, hdecide⟩ := Option.map_eq_some_iff.mp hfalse
  exact ⟨w, toOption_eq_some.mp hw, of_decide_eq_false hdecide⟩

end Argo
end PipelineCompiler
