import PipelineCompiler.Argo.Compile
import PipelineCompiler.Component.Basic
import PipelineCompiler.Proofs.Argo.Binding
import PipelineCompiler.Proofs.Graph.Order
import PipelineCompiler.Proofs.Naming.Reserved

namespace PipelineCompiler.Argo

/-!
# What compiling a component makes

* `componentBlueprint_container`, `componentBlueprint_graph`, `taskStep_eq` — the code, opened;
* `taskStep_cases`, `yields_runTasks_cons` — what there is when a task, or several, did not fail;
* `start_spec` — the scope with which a graph begins;
* `addTask_spec` — what one compiled task adds;
* `TaskCompiled`, `GraphCompiled` — what is left of the compilation of a task and of a graph;
* `runTasks_spec` — one task after another;
* `blueprint_sound` — every component, to any depth, leaves the templates sound.

The induction is on the nesting of components.  Within a graph it is on the order of the tasks,
and the invariant is `Draft.Sound`: after each task the scope is sound, and what is known of the
earlier tasks still holds because the draft has only grown.
-/

variable {P : String → Prop} {s : Settings}

/-! ### The code, opened -/

/-- The blueprint of a container, opened. -/
theorem componentBlueprint_container {c : Component} {container : Container}
    (himpl : c.implementation = .container container) (arguments : Keyed Argument)
    (kinds : Keyed InputKind) (path : List String) (templates : Registry Template) :
    componentBlueprint s arguments kinds path templates c = (do
      let blueprint ← containerBlueprint s c container arguments
      pure (blueprint, templates)) := by
  obtain ⟨implementation, name, description, inputs, outputs, metadata⟩ := c
  obtain rfl : implementation = .container container := himpl
  rw [componentBlueprint, implementationBlueprint]

/-- The blueprint of a graph, opened. -/
theorem componentBlueprint_graph {c : Component} {g : Graph} (himpl : c.implementation = .graph g)
    (arguments : Keyed Argument) (kinds : Keyed InputKind) (path : List String)
    (templates : Registry Template) : componentBlueprint s arguments kinds path templates c = (do
      let order ← g.order c.inputNames
      let scope ← Scope.start s path kinds order
      let d ← runTasks (taskSteps s g.tasks) order { templates, scope }
      let blueprint ← graphBlueprint d.scope g.outputValues
      pure (blueprint, d.templates)) := by
  obtain ⟨implementation, name, description, inputs, outputs, metadata⟩ := c
  obtain rfl : implementation = .graph g := himpl
  obtain ⟨tasks, outputValues⟩ := g
  rw [componentBlueprint, implementationBlueprint]

/-- A task with a component, opened. -/
theorem taskStep_eq {task : GraphTask} {component : Component}
    (hspec : task.reference.spec = some component) (id : String) (d : Draft) :
    taskStep s id task d = (do
      let path := d.scope.path ++ [id]
      let kinds ← d.scope.kindsOf task.arguments component.inputs
      let (blueprint, templates) ←
        componentBlueprint s task.arguments kinds path d.templates component
      let binder : Binder := { component, arguments := task.arguments, place := placeOf path }
      addTask s id binder path blueprint { d with templates }) := by
  obtain ⟨⟨name, digest, tag, url, spec⟩, arguments, annotations⟩ := task
  obtain rfl : spec = some component := hspec
  rw [taskStep]

/-- The steps of a graph are those of its tasks. -/
theorem find?_taskSteps (tasks : List (String × GraphTask)) (id : String) :
    Keyed.find? (taskSteps s tasks) id = (Keyed.find? tasks id).map (taskStep s id) := by
  induction tasks with
  | nil => rfl
  | cons entry rest ih =>
    obtain ⟨other, task⟩ := entry
    rw [taskSteps, Keyed.find?, Keyed.find?]
    by_cases h : other = id
    · rw [if_pos h, if_pos h, h]
      rfl
    · rw [if_neg h, if_neg h, ih]

/-- The first of some tasks is compiled, its failures are attributed to it, and then the others. -/
theorem runTasks_cons {tasks : List (String × GraphTask)} {id : String} {task : GraphTask}
    (h : Keyed.find? tasks id = some task) (rest : List String) (d : Draft) :
    (runTasks (taskSteps s tasks) (id :: rest) d).result =
      ((taskStep s id task d).within id >>= runTasks (taskSteps s tasks) rest).result := by
  have hfetch : Keyed.fetch (taskSteps s tasks) id = .ok (taskStep s id task) := by
    rw [fetch_eq_ok, find?_taskSteps, h]
    rfl
  rw [runTasks, Recorded.result_bind_of_ok (a := taskStep s id task) hfetch]

/-- Tasks may be run in two portions. -/
theorem runTasks_append (steps : Keyed TaskStep) (before after : List String) (d : Draft) :
    runTasks steps (before ++ after) d = runTasks steps before d >>= runTasks steps after := by
  induction before generalizing d with
  | nil => rw [List.nil_append, runTasks, pure_bind]
  | cons id rest ih =>
    simp only [List.cons_append, runTasks, ih, bind_assoc]

/-! ### The scope with which a graph begins -/

/-- The tasks of a scope get their names from its allocator. -/
theorem reserveAll_eq (scope : Scope) (order : List String) :
    scope.reserveAll order = (scope.tasks.names.reserveAll scope.taskNames order).map fun given =>
      { scope with tasks := { scope.tasks with names := given.2 }, taskNames := given.1 } := by
  induction order generalizing scope with
  | nil => rfl
  | cons id rest ih =>
    unfold Scope.reserveAll at ih ⊢
    rw [List.foldlM_cons, NameAllocator.reserveAll, Registry.reserve]
    cases scope.tasks.names.reserve id with
    | error e => rfl
    | ok given => exact ih _

/-- The scope with which a graph begins has the names of its tasks, and nothing else. -/
theorem start_eq {path : List String} {kinds : Keyed InputKind} {order : List String}
    {scope : Scope} (hok : Scope.start s path kinds order = .ok scope) :
    ∃ names a, ({ policy := s.policy } : NameAllocator).reserveAll [] order = .ok (names, a) ∧
      scope = { path, kinds, tasks := { names := a }, taskNames := names } := by
  unfold Scope.start at hok
  have hreserve : Scope.reserveAll { path, kinds, tasks := .empty s.policy } order = .ok scope := by
    split at hok
    · exact hok
    · obtain ⟨limit, -, hok⟩ := bind_eq_ok.mp hok
      exact hok
  rw [reserveAll_eq] at hreserve
  obtain ⟨⟨names, a⟩, hgiven, rfl⟩ := map_eq_ok.mp hreserve
  exact ⟨names, a, hgiven, rfl⟩

/-- The names of the tasks are those that are given in their order. -/
theorem start_taskNames {path : List String} {kinds : Keyed InputKind} {order : List String}
    {scope : Scope} (hok : Scope.start s path kinds order = .ok scope) :
    scope.taskNames = emittedNames s order := by
  obtain ⟨names, a, hgiven, rfl⟩ := start_eq hok
  rw [emittedNames, hgiven]

/-- **The scope with which a graph begins** is sound. -/
theorem start_spec {path : List String} {kinds : Keyed InputKind} {order : List String}
    {scope : Scope} (hok : Scope.start s path kinds order = .ok scope)
    {templates : Registry Template} (ht : TemplatesSound P templates) :
    Draft.Sound P { templates, scope } [] [] ∧ scope.kinds = kinds ∧ scope.path = path ∧
      scope.taskNames = emittedNames s order ∧
      ∀ id ∈ order, id ∈ Keyed.keys scope.taskNames := by
  have hemitted := start_taskNames hok
  obtain ⟨names, a, hgiven, rfl⟩ := start_eq hok
  obtain ⟨hreserved, hkeys⟩ := reserveAll_spec (reserved_empty s) hgiven
  refine ⟨?_, rfl, rfl, hemitted, fun id hid => hkeys id (.inl hid)⟩
  -- there are no tasks and no inputs yet, so that little remains to be shown
  exact {
    templates := ht
    tasks := hreserved.sound rfl
    fits := fun _ hentry => nomatch hentry
    reserved := fun id name hname => ⟨hreserved.used id name hname, hreserved.not_kept name⟩
    distinct := hreserved.distinct
    defined := fun _ hname => nomatch hname
    declaredPending := fun _ hr => nomatch hr
    declared := fun _ hentry => nomatch hentry
    parametersUsed := fun _ hinput => nomatch hinput
    artifactsUsed := fun _ hinput => nomatch hinput }

/-! ### Blueprints -/

/-- What holds of a blueprint and of the templates with it. -/
structure BlueprintSound (P : String → Prop) (templates : Registry Template)
    (blueprint : Blueprint) (templates' : Registry Template) : Prop where
  sound : TemplatesSound P templates'
  grows : templates.Grows templates'
  closed : blueprint.template.Closed templates'.entries
  parameters : blueprint.template.inputParameters = blueprint.parameters.map sanitizeIoName
  artifacts : blueprint.template.inputArtifacts = blueprint.artifacts.map sanitizeIoName

/-- A component whose blueprints are sound, whatever it is compiled for. -/
def Compiles (P : String → Prop) (s : Settings) (c : Component) : Prop :=
  ∀ arguments kinds path templates blueprint templates', TemplatesSound P templates →
    (componentBlueprint s arguments kinds path templates c).Yields P (blueprint, templates') →
      BlueprintSound P templates blueprint templates'

/-- The files of inputs and outputs have their legal names. -/
theorem names_of_mapM_fileOf {directory : String} {names : List String} {files : List ArtifactFile}
    (h : names.mapM (fileOf s directory) = .ok files) :
    files.map ArtifactFile.name = names.map sanitizeIoName := by
  induction names generalizing files with
  | nil =>
    obtain rfl := pure_eq_ok.mp h
    rfl
  | cons name rest ih =>
    rw [List.mapM_cons] at h
    obtain ⟨file, hfile, h⟩ := bind_eq_ok.mp h
    obtain ⟨others, hothers, h⟩ := bind_eq_ok.mp h
    obtain rfl := pure_eq_ok.mp h
    rw [List.map_cons, List.map_cons, ih hothers, fileOf_name hfile]

/-- **The blueprint of a container** lists the inputs that its command line uses. -/
theorem containerBlueprint_spec {c : Component} {container : Container}
    {arguments : Keyed Argument} {blueprint : Blueprint}
    (h : containerBlueprint s c container arguments = .ok blueprint) :
    ∃ line, Expander.commandLine { component := c, arguments, accessors } container = .ok line ∧
      blueprint.parameters = line.valueInputs ∧ blueprint.artifacts = line.pathInputs ∧
      blueprint.template.outline = .container (blueprint.parameters.map sanitizeIoName)
        (blueprint.artifacts.map sanitizeIoName) := by
  obtain ⟨line, hline, h⟩ := bind_eq_ok.mp h
  obtain ⟨artifacts, hartifacts, h⟩ := bind_eq_ok.mp h
  obtain ⟨outputs, -, h⟩ := bind_eq_ok.mp h
  obtain rfl := pure_eq_ok.mp h
  refine ⟨line, hline, rfl, rfl, ?_⟩
  show Outline.container _ _ = _
  rw [names_of_mapM_fileOf hartifacts]

/-! ### One task -/

/-- What a compiled task has left in the scope: itself under its name, with bindings for the inputs
    that its template reads. -/
structure TaskAdded (d : Draft) (id : String) (b : Binder) (blueprint : Blueprint) : Prop where
  exists_step : ∃ name template parameters artifacts,
    Keyed.find? d.scope.taskNames id = some name ∧
    Keyed.find? d.scope.tasks.entries name = some (.step template parameters artifacts) ∧
    outline? d.templates template = some blueprint.template.outline ∧
    BoundBy b (Binds d) blueprint.parameters parameters ∧
    BoundBy b (BindsFile d) blueprint.artifacts artifacts

/-- Bindings stay what they are. -/
theorem BoundBy.imp {b : Binder} {holds holds' : Argument → Reference → Prop}
    (himp : ∀ argument reference, holds argument reference → holds' argument reference)
    {names : List String} {bindings : List (String × Reference)}
    (h : BoundBy b holds names bindings) : BoundBy b holds' names bindings :=
  List.Forall₂.imp (fun _ _ ⟨hmem, hname, hholds⟩ => ⟨hmem, hname, himp _ _ hholds⟩) h

/-- What a task has left stays there. -/
theorem TaskAdded.mono {d d' : Draft} (hgrows : d.Grows d') {id : String} {b : Binder}
    {blueprint : Blueprint} (h : TaskAdded d id b blueprint) : TaskAdded d' id b blueprint := by
  obtain ⟨name, template, parameters, artifacts, hname, htask, houtline, hps, has⟩ :=
    h.exists_step
  exact ⟨name, template, parameters, artifacts, hgrows.taskNames ▸ hname,
    hgrows.tasks.within _ _ htask, outline?_mono hgrows.templates.within houtline,
    hps.imp fun _ _ h => h.mono hgrows, has.imp fun _ _ h => h.mono hgrows⟩

/-- The name that is reserved for a task is in use neither for a conversion nor for another task. -/
theorem Draft.Sound.name_isNew {d : Draft} {done : List String} {pending : List Reference}
    (h : d.Sound P done pending) {id name : String}
    (hname : Keyed.find? d.scope.taskNames id = some name) (hid : id ∉ done) :
    name ∉ Keyed.keys d.scope.tasks.entries := by
  intro hmem
  rcases h.defined name hmem with hmem | ⟨other, hother, hfind⟩
  · exact (h.reserved id name hname).2 hmem
  · rw [h.distinct id other name hname hfind] at hid
    exact hid hother

/-- A task may be defined under the name reserved for it, and its bindings are pending no more. -/
theorem Draft.Sound.define {d : Draft} {done : List String} {pending : List Reference}
    (h : d.Sound P done pending) {id name : String}
    (hname : Keyed.find? d.scope.taskNames id = some name) (hid : id ∉ done) {task : DagTask}
    (hfits : Fits d.templates.entries task)
    (hpending : ∀ reference, reference ∈ task.references ↔ reference ∈ pending) :
    Draft.Sound P { d with scope := { d.scope with tasks := d.scope.tasks.define name task } }
      (done ++ [id]) [] := by
  obtain ⟨hused, -⟩ := h.reserved id name hname
  have hnew := h.name_isNew hname hid
  have hentries := Registry.define_entries hnew task
  -- What stood in a pending binding now stands in the task, so no use of an input gets lost.
  have hwritten : ∀ text, Written d.scope.tasks.entries pending text →
      Written (d.scope.tasks.define name task).entries [] text := by
    rintro text (⟨r, hr, rfl⟩ | ⟨entry, hentry, htext⟩)
    · obtain ⟨binding, hbinding, rfl⟩ := List.mem_map.mp ((hpending r).mpr hr)
      refine .inr ⟨(name, task), by rw [hentries]; simp, ?_⟩
      exact List.mem_map_of_mem (f := fun binding => binding.2.text) hbinding
    · exact .inr ⟨entry, by rw [hentries]; exact List.mem_append_left _ hentry, htext⟩
  have hcases : ∀ entry ∈ (d.scope.tasks.define name task).entries,
      entry ∈ d.scope.tasks.entries ∨ entry = (name, task) := by
    intro entry hentry
    rw [hentries] at hentry
    simpa using hentry
  refine ⟨h.templates, Registry.define_sound h.tasks hused hnew task, ?_, h.reserved,
    h.distinct, ?_, fun _ hr => (nomatch hr), ?_, fun input hinput => hwritten _
    (h.parametersUsed input hinput), fun input hinput =>
      hwritten _ (h.artifactsUsed input hinput)⟩
  · intro entry hentry
    rcases hcases entry hentry with hold | rfl
    · exact h.fits entry hold
    · exact hfits
  -- A name in the table is that of a task compiled before, or the one that was reserved for `id`.
  · intro n hn
    obtain ⟨entry, hentry, rfl⟩ := List.mem_map.mp hn
    rcases hcases entry hentry with hold | rfl
    · rcases h.defined _ (List.mem_map_of_mem (f := (·.1)) hold) with hmem | ⟨x, hx, hfind⟩
      · exact .inl hmem
      · exact .inr ⟨x, List.mem_append_left _ hx, hfind⟩
    · exact .inr ⟨id, List.mem_append_right _ List.mem_cons_self, hname⟩
  · intro entry hentry r hr
    rcases hcases entry hentry with hold | rfl
    · exact h.declared entry hold r hr
    · exact h.declaredPending r ((hpending r).mp hr)

/-- **A compiled task** is fit for its template, whoever the template was made for. -/
theorem addTask_spec (hsep : Separates P) {d d' : Draft} {done : List String} {id : String}
    {b : Binder} {path : List String} {blueprint : Blueprint} {templates : Registry Template}
    (h : d.Sound P done []) (hid : id ∉ done)
    (hblueprint : BlueprintSound P templates blueprint d.templates)
    (hyields : (addTask s id b path blueprint d).Yields P d') :
    d'.Sound P (done ++ [id]) [] ∧ d.Grows d' ∧ TaskAdded d' id b blueprint := by
  unfold addTask at hyields
  obtain ⟨⟨template, templates₁⟩, htemplate, hyields⟩ := Recorded.yields_bind.mp hyields
  obtain ⟨ht, hgrowsT, hfound⟩ := addTemplate_spec hsep h.templates hblueprint.closed htemplate
  obtain ⟨⟨parameters, d₁⟩, hparameters, hyields⟩ := Recorded.yields_bind.mp hyields
  obtain ⟨hsound₁, hgrows₁, hps⟩ :=
    bindParameters_spec hsep (h.withTemplates ht hgrowsT) hparameters
  obtain ⟨⟨artifacts, d₂⟩, hartifacts, hyields⟩ := Recorded.yields_bind.mp hyields
  obtain ⟨hsound₂, hgrows₂, has⟩ := bindArtifacts_spec hsound₁ hartifacts
  obtain ⟨name, hname, hyields⟩ := Recorded.yields_bind.mp hyields
  have hname := fetch_eq_ok.mp (Recorded.yields_lift.mp hname)
  obtain ⟨u, -, hyields⟩ := Recorded.yields_bind.mp hyields
  obtain rfl := Recorded.yields_pure.mp hyields
  have hfound₂ := outline?_mono (hgrows₁.trans hgrows₂).templates.within hfound
  -- the template that was found may be another task's: only its outline is known
  have hfits : Fits d₂.templates.entries (.step template parameters artifacts) := by
    obtain ⟨t, hfind, houtline⟩ := Option.map_eq_some_iff.mp hfound₂
    refine ⟨t, hfind, ?_, ?_⟩
    · rw [← Template.outline_parameters, houtline, Template.outline_parameters,
        hblueprint.parameters]
      exact hps.names
    · rw [← Template.outline_artifacts, houtline, Template.outline_artifacts,
        hblueprint.artifacts]
      exact has.names
  have hnew := hsound₂.name_isNew hname hid
  have hsound := hsound₂.define hname hid hfits (by
    intro r
    simp [DagTask.references, DagTask.parameters, DagTask.artifacts, or_comm])
  have hdefine : d₂.Grows { d₂ with scope := { d₂.scope with
      tasks := d₂.scope.tasks.define name (.step template parameters artifacts) } } :=
    Draft.grows_withTasks (Registry.define_grows hnew _)
  have hadded : TaskAdded { d₂ with scope := { d₂.scope with
      tasks := d₂.scope.tasks.define name (.step template parameters artifacts) } } id b
        blueprint := by
    refine ⟨name, template, parameters, artifacts, hname, ?_, hfound₂,
      hps.imp fun _ _ h => h.mono (hgrows₂.trans hdefine), has.imp fun _ _ h => h.mono hdefine⟩
    exact Keyed.find?_put_self _ _ _
  exact ⟨hsound, ((Draft.grows_withTemplates hgrowsT).trans hgrows₁).trans
    (hgrows₂.trans hdefine), hadded⟩

/-! ### The tasks of a graph -/

/-- A task that is compiled has a component, which is compiled before it. -/
theorem taskStep_cases {id : String} {task : GraphTask} {d d' : Draft}
    (hyields : (taskStep s id task d).Yields P d') :
    ∃ component kinds blueprint templates, task.reference.spec = some component ∧
      d.scope.kindsOf task.arguments component.inputs = .ok kinds ∧
      (componentBlueprint s task.arguments kinds (d.scope.path ++ [id]) d.templates
        component).Yields P (blueprint, templates) ∧
      (addTask s id { component, arguments := task.arguments
                      place := placeOf (d.scope.path ++ [id]) }
        (d.scope.path ++ [id]) blueprint { d with templates }).Yields P d' := by
  cases hspec : task.reference.spec with
  | none =>
    obtain ⟨⟨name, digest, tag, url, spec⟩, arguments, annotations⟩ := task
    obtain rfl : spec = none := hspec
    rw [taskStep] at hyields
    exact absurd hyields Recorded.not_yields_throw
  | some component =>
    rw [taskStep_eq hspec] at hyields
    obtain ⟨kinds, hkinds, hyields⟩ := Recorded.yields_bind.mp hyields
    obtain ⟨⟨blueprint, templates⟩, hmade, hyields⟩ := Recorded.yields_bind.mp hyields
    exact ⟨component, kinds, blueprint, templates, rfl, Recorded.yields_lift.mp hkinds, hmade,
      hyields⟩

/-- The first task of an order is compiled, and then the others are. -/
theorem yields_runTasks_cons {tasks : List (String × GraphTask)} {id : String}
    {rest : List String} {d d' : Draft}
    (hyields : (runTasks (taskSteps s tasks) (id :: rest) d).Yields P d') :
    ∃ task d₁, Keyed.find? tasks id = some task ∧ (taskStep s id task d).Yields P d₁ ∧
      (runTasks (taskSteps s tasks) rest d₁).Yields P d' := by
  unfold runTasks at hyields
  obtain ⟨step, hstep, hyields⟩ := Recorded.yields_bind.mp hyields
  have hstep := fetch_eq_ok.mp (Recorded.yields_lift.mp hstep)
  rw [find?_taskSteps] at hstep
  obtain ⟨task, htask, rfl⟩ := Option.map_eq_some_iff.mp hstep
  obtain ⟨d₁, hd₁, hyields⟩ := Recorded.yields_bind.mp hyields
  exact ⟨task, d₁, htask, Recorded.yields_within.mp hd₁, hyields⟩

/-- What is left of the compilation of a task: the blueprint of its component was made at some
    time, its templates are still there, and the task was added for it. -/
def TaskCompiled (P : String → Prop) (s : Settings) (d : Draft) (id : String)
    (task : GraphTask) : Prop :=
  ∃ component kinds path templates blueprint templates',
    task.reference.spec = some component ∧ TemplatesSound P templates ∧
    (componentBlueprint s task.arguments kinds path templates component).Yields P
      (blueprint, templates') ∧
    Keyed.Within templates'.entries d.templates.entries ∧
    TaskAdded d id { component, arguments := task.arguments, place := placeOf path } blueprint

/-- What is left stays there. -/
theorem TaskCompiled.mono {d d' : Draft} (hgrows : d.Grows d') {id : String} {task : GraphTask}
    (h : TaskCompiled P s d id task) : TaskCompiled P s d' id task := by
  obtain ⟨component, kinds, path, templates, blueprint, templates', hspec, ht, hyields, hw,
    hadded⟩ := h
  exact ⟨component, kinds, path, templates, blueprint, templates', hspec, ht, hyields,
    hw.trans hgrows.templates.within, hadded.mono hgrows⟩

/-- **One task**: its component is compiled first, and then the task is added. -/
theorem taskStep_spec (hsep : Separates P) {id : String} {task : GraphTask}
    (hinner : ∀ inner, task.reference.spec = some inner → Compiles P s inner) {d d' : Draft}
    {done : List String} (h : d.Sound P done []) (hid : id ∉ done)
    (hyields : (taskStep s id task d).Yields P d') :
    d'.Sound P (done ++ [id]) [] ∧ d.Grows d' ∧ TaskCompiled P s d' id task := by
  obtain ⟨component, kinds, blueprint, templates, hspec, -, hmade, hyields⟩ :=
    taskStep_cases hyields
  have hblueprint := hinner component hspec _ _ _ _ _ _ h.templates hmade
  obtain ⟨hsound, hgrows, hadded⟩ := addTask_spec hsep
    (h.withTemplates hblueprint.sound hblueprint.grows) hid hblueprint hyields
  exact ⟨hsound, (Draft.grows_withTemplates hblueprint.grows).trans hgrows, component, kinds, _,
    d.templates, blueprint, templates, hspec, h.templates, hmade, hgrows.templates.within, hadded⟩

/-- **The run over the tasks of a graph**: afterwards all of them are compiled. -/
theorem runTasks_spec (hsep : Separates P) {tasks : List (String × GraphTask)}
    (hinner : ∀ entry ∈ tasks, ∀ inner, entry.2.reference.spec = some inner →
      Compiles P s inner) {order done : List String} (hnodup : (done ++ order).Nodup)
    {d d' : Draft} (h : d.Sound P done [])
    (hyields : (runTasks (taskSteps s tasks) order d).Yields P d') :
    d'.Sound P (done ++ order) [] ∧ d.Grows d' ∧
      ∀ id ∈ order, ∃ task, Keyed.find? tasks id = some task ∧
        TaskCompiled P s d' id task := by
  induction order generalizing d done with
  | nil =>
    obtain rfl := Recorded.yields_pure.mp hyields
    exact ⟨by simpa using h, .refl d, fun _ hid => (nomatch hid)⟩
  | cons id rest ih =>
    obtain ⟨task, d₁, htask, hd₁, hyields⟩ := yields_runTasks_cons hyields
    have hid : id ∉ done := fun hmem =>
      (List.nodup_append.mp hnodup).2.2 id hmem id List.mem_cons_self rfl
    obtain ⟨hsound₁, hgrows₁, hcompiled₁⟩ := taskStep_spec hsep
      (hinner _ (Keyed.mem_of_find? htask)) h hid hd₁
    have hnodup₁ : (done ++ [id] ++ rest).Nodup := by simpa using hnodup
    obtain ⟨hsound, hgrows, hcompiled⟩ := ih hnodup₁ hsound₁ hyields
    refine ⟨by simpa using hsound, hgrows₁.trans hgrows, fun other hother => ?_⟩
    -- the first task was compiled before the others, which took nothing back
    rcases List.mem_cons.mp hother with rfl | hother
    · exact ⟨task, htask, hcompiled₁.mono hgrows⟩
    · exact hcompiled other hother

/-- What is left of the compilation of a graph: a sound scope in which all tasks are compiled, and
    from which the blueprint was made. -/
structure GraphCompiled (P : String → Prop) (s : Settings) (g : Graph) (order : List String)
    (d : Draft) (blueprint : Blueprint) : Prop where
  sound : d.Sound P order []
  taskNames : d.scope.taskNames = emittedNames s order
  named : ∀ id ∈ order, id ∈ Keyed.keys (emittedNames s order)
  compiled : ∀ id ∈ order, ∃ task, g.task? id = some task ∧ TaskCompiled P s d id task
  parameters : blueprint.parameters = d.scope.parameters
  artifacts : blueprint.artifacts = d.scope.artifacts
  template : ∃ outputs, blueprint.template = .dag (blueprint.parameters.map sanitizeIoName)
    (blueprint.artifacts.map sanitizeIoName) outputs d.scope.tasks.entries

/-- **A graph** is compiled task by task. -/
theorem graph_spec (hsep : Separates P) {c : Component} {g : Graph}
    (himpl : c.implementation = .graph g)
    (hinner : ∀ entry ∈ g.tasks, ∀ inner, entry.2.reference.spec = some inner →
      Compiles P s inner) {arguments : Keyed Argument} {kinds : Keyed InputKind}
    {path : List String} {templates templates' : Registry Template} {blueprint : Blueprint}
    (ht : TemplatesSound P templates)
    (hyields : (componentBlueprint s arguments kinds path templates c).Yields P
      (blueprint, templates')) :
    ∃ order d, g.order c.inputNames = .ok order ∧ templates.Grows templates' ∧
      d.templates = templates' ∧ d.scope.kinds = kinds ∧
      GraphCompiled P s g order d blueprint := by
  obtain ⟨implementation, name, description, inputs, outputs, metadata⟩ := c
  obtain rfl : implementation = .graph g := himpl
  obtain ⟨tasks, outputValues⟩ := g
  rw [componentBlueprint, implementationBlueprint] at hyields
  obtain ⟨order, horder, hyields⟩ := Recorded.yields_bind.mp hyields
  have horder := Recorded.yields_lift.mp horder
  obtain ⟨scope, hscope, hyields⟩ := Recorded.yields_bind.mp hyields
  -- all names are given before the first task is compiled
  obtain ⟨hsound, hkinds, -, hnames, hnamed⟩ := start_spec (Recorded.yields_lift.mp hscope) ht
  obtain ⟨d, hrun, hyields⟩ := Recorded.yields_bind.mp hyields
  have hnodup : ([] ++ order).Nodup := (order_planned horder).nodup
  obtain ⟨hsound', hgrows, hcompiled⟩ := runTasks_spec hsep hinner hnodup hsound hrun
  obtain ⟨made, hmade, hyields⟩ := Recorded.yields_bind.mp hyields
  obtain ⟨rfl, rfl⟩ := Recorded.yields_pure_pair hyields
  obtain ⟨outs, -, hmade⟩ := bind_eq_ok.mp (Recorded.yields_lift.mp hmade)
  obtain rfl := pure_eq_ok.mp hmade
  exact ⟨order, d, horder, hgrows.templates, rfl, hgrows.kinds.trans hkinds, hsound',
    hgrows.taskNames.trans hnames, fun id hid => hnames ▸ hnamed id hid,
      hcompiled, rfl, rfl, outs, rfl⟩

/-- The blueprint of a compiled graph is sound. -/
theorem GraphCompiled.blueprint {g : Graph} {order : List String} {d : Draft}
    {blueprint : Blueprint} (h : GraphCompiled P s g order d blueprint)
    {templates : Registry Template} (hgrows : templates.Grows d.templates) :
    BlueprintSound P templates blueprint d.templates := by
  obtain ⟨outputs, htemplate⟩ := h.template
  refine ⟨h.sound.templates, hgrows, ?_, ?_, ?_⟩
  -- an input that is used and waits for no task is written into one
  · rw [htemplate, h.parameters, h.artifacts]
    refine ⟨h.sound.tasks.nodup, h.sound.fits, h.sound.declared, fun name hname => ?_,
      fun name hname => ?_⟩
    · obtain ⟨input, hinput, rfl⟩ := List.mem_map.mp hname
      rcases h.sound.parametersUsed input hinput with ⟨r, hr, -⟩ | hwritten
      · cases hr
      · exact hwritten
    · obtain ⟨input, hinput, rfl⟩ := List.mem_map.mp hname
      rcases h.sound.artifactsUsed input hinput with ⟨r, hr, -⟩ | hwritten
      · cases hr
      · exact hwritten
  · rw [htemplate]
    rfl
  · rw [htemplate]
    rfl

/-- **Every component, to any depth, leaves the templates sound.** -/
theorem blueprint_sound (hsep : Separates P) (c : Component) : Compiles P s c := by
  induction c using Component.nesting with
  | container c container himpl =>
    intro arguments kinds path templates blueprint templates' ht hyields
    obtain ⟨implementation, name, description, inputs, outputs, metadata⟩ := c
    obtain rfl : implementation = .container container := himpl
    rw [componentBlueprint, implementationBlueprint] at hyields
    obtain ⟨made, hmade, hyields⟩ := Recorded.yields_bind.mp hyields
    obtain ⟨rfl, rfl⟩ := Recorded.yields_pure_pair hyields
    obtain ⟨line, -, -, -, houtline⟩ := containerBlueprint_spec (Recorded.yields_lift.mp hmade)
    refine ⟨ht, .refl _, ?_, ?_, ?_⟩
    -- the template of a container is closed, because it has no tasks
    · cases htemplate : made.template with
      | dag =>
        rw [htemplate] at houtline
        cases houtline
      | container | conversion => trivial
    · rw [← Template.outline_parameters, houtline]
      rfl
    · rw [← Template.outline_artifacts, houtline]
      rfl
  | graph c g himpl ih =>
    intro arguments kinds path templates blueprint templates' ht hyields
    obtain ⟨order, d, -, hgrows, rfl, -, hcompiled⟩ := graph_spec hsep himpl ih ht hyields
    exact hcompiled.blueprint hgrows

end PipelineCompiler.Argo
