import PipelineCompiler.Proofs.Argo.Compile

namespace PipelineCompiler.Argo

/-!
# What a run does

What the code does on the way to a result, read off the run alone: nothing is assumed of the draft
before, and nothing of digests.

* `Run.Conversion`, `Run.Value`, `Draft.BindsFile` — a conversion, and the binding of an input;
* `Draft.BindsAll` — the inputs of a task get their bindings, one after another;
* `Run.Task`, `Run.Tasks` — a task is added, and the tasks of a graph are;
* `convert_run` … `graph_run` — the code does nothing else;
* `Draft.Named` — what holds of the names in a draft, whether digests tell texts apart or not;
* `Run.Tasks.named`, `blueprint_stored` — every run keeps this.
-/

variable {P : String → Prop} {s : Settings}

/-! ### What is done -/

/-- A conversion: its template and its task are interned. -/
structure Run.Conversion (P : String → Prop) (s : Settings) (d : Draft) (source : Reference)
    (name : String) (d' : Draft) : Prop where
  exists_interned : ∃ t template templates tasks, conversionTemplate s = .ok t ∧
    Registry.Interned P Template.record d.templates t template templates ∧
    Registry.Interned P DagTask.record d.scope.tasks (.conversion template source) name tasks ∧
    d' = { templates, scope := { d.scope with tasks } }

/-- An input that is used as a parameter is bound to what its argument refers to. -/
inductive Run.Value (P : String → Prop) (s : Settings) (d : Draft) :
    Argument → Reference → Draft → Prop
  | constant (text : String) : Value P s d (.literal text) (.constant text) d
  | input {name : String} {kind : InputKind} (type : PipelineCompiler.Value)
      (found : Keyed.find? d.scope.kinds name = some kind) (kindNe : kind ≠ .artifact) :
      Value P s d (.graphInput name type) (.parameter (sanitizeIoName name))
        { d with scope := (d.scope.useParameter name).2 }
  | convertedInput {name conversion : String} {d' : Draft} (type : PipelineCompiler.Value)
      (found : Keyed.find? d.scope.kinds name = some .artifact)
      (converted : Run.Conversion P s { d with scope := (d.scope.useArtifact name).2 }
        (.artifact (sanitizeIoName name)) conversion d') :
      Value P s d (.graphInput name type) (.taskParameter conversion conversionOutput) d'
  | convertedOutput {source : TaskOutput} {task conversion : String} {d' : Draft}
      (found : Keyed.find? d.scope.taskNames source.task = some task)
      (converted : Run.Conversion P s d
        (.taskArtifact task (sanitizeIoName source.output)) conversion d') :
      Value P s d (.taskOutput source) (.taskParameter conversion conversionOutput) d'

/-- An input that is used as a file is bound to what its argument refers to. -/
inductive Draft.BindsFile (d : Draft) : Argument → Reference → Draft → Prop
  | input {name : String} {kind : InputKind} (type : Value)
      (found : Keyed.find? d.scope.kinds name = some kind) (kindNe : kind ≠ .parameter) :
      BindsFile d (.graphInput name type) (.artifact (sanitizeIoName name))
        { d with scope := (d.scope.useArtifact name).2 }
  | output {source : TaskOutput} {task : String}
      (found : Keyed.find? d.scope.taskNames source.task = some task) :
      BindsFile d (.taskOutput source) (.taskArtifact task (sanitizeIoName source.output)) d

/-- The inputs of a task get their bindings, one after another. -/
inductive Draft.BindsAll (binds : Draft → Argument → Reference → Draft → Prop)
    (b : Binder) :
    Draft → List String → List (String × Reference) → Draft → Prop
  | nil (d : Draft) : BindsAll binds b d [] [] d
  | cons {d d₁ d₂ : Draft} {name : String} {names : List String} {reference : Reference}
      {bindings : List (String × Reference)} (declared : name ∈ b.component.inputNames)
      (first : binds d (b.component.argumentFor b.arguments name) reference d₁)
      (rest : BindsAll binds b d₁ names bindings d₂)
      (given : b.component.checkInput (Keyed.has b.arguments) name = .ok ()) :
      BindsAll binds b d (name :: names) ((sanitizeIoName name, reference) :: bindings) d₂

/-- A task is added: its template is interned, its inputs get their bindings, and it is defined
    under the name of its id. -/
inductive Run.Task (P : String → Prop) (s : Settings) (id : String) (b : Binder)
    (blueprint : Blueprint) (d : Draft) : Draft → Prop
  | intro {template name : String} {templates : Registry Template} {d₁ d₂ : Draft}
      {parameters artifacts : List (String × Reference)}
      (interned : Registry.Interned P Template.record d.templates blueprint.template template
        templates)
      (values : Draft.BindsAll (Run.Value P s) b { d with templates } blueprint.parameters
        parameters d₁)
      (files : Draft.BindsAll Draft.BindsFile b d₁ blueprint.artifacts artifacts d₂)
      (named : Keyed.find? d₂.scope.taskNames id = some name) :
      Task P s id b blueprint d { d₂ with scope := { d₂.scope with
        tasks := d₂.scope.tasks.define name (.step template parameters artifacts) } }

/-- The tasks of a graph are compiled in an order: the component of a task first, then the task is
    added. -/
inductive Run.Tasks (P : String → Prop) (s : Settings) (tasks : List (String × GraphTask)) :
    List String → Draft → Draft → Prop
  | nil (d : Draft) : Tasks P s tasks [] d d
  | cons {d d₁ d₂ : Draft} {id : String} {rest : List String} {task : GraphTask}
      {component : Component} {kinds : Keyed InputKind} {blueprint : Blueprint}
      {templates : Registry Template} (found : Keyed.find? tasks id = some task)
      (spec : task.reference.spec = some component)
      (kinded : d.scope.kindsOf task.arguments component.inputs = .ok kinds)
      (made : (componentBlueprint s task.arguments kinds (d.scope.path ++ [id]) d.templates
        component).Yields P (blueprint, templates))
      (added : Run.Task P s id
        { component, arguments := task.arguments, place := placeOf (d.scope.path ++ [id]) }
        blueprint { d with templates } d₁)
      (others : Tasks P s tasks rest d₁ d₂) : Tasks P s tasks (id :: rest) d d₂

/-! ### Nothing else is done -/

variable {d d' : Draft} {reference : Reference}

/-- A conversion. -/
theorem convert_run {source : Reference} {stem : String}
    (hyields : (d.convert s source stem).Yields P (reference, d')) :
    ∃ name, reference = .taskParameter name conversionOutput ∧
      Run.Conversion P s d source name d' := by
  unfold Draft.convert at hyields
  obtain ⟨t, ht, hyields⟩ := Recorded.yields_bind.mp hyields
  obtain ⟨⟨template, templates⟩, htemplate, hyields⟩ := Recorded.yields_bind.mp hyields
  obtain ⟨⟨name, isNew, tasks⟩, hintern, hyields⟩ := Recorded.yields_bind.mp hyields
  dsimp only at hyields
  obtain ⟨rfl, rfl⟩ := Recorded.yields_pure_pair hyields.of_when
  exact ⟨name, rfl, t, template, templates, tasks, Recorded.yields_lift.mp ht,
    addTemplate_interned htemplate, ⟨_, _, hintern⟩, rfl⟩

/-- An input that is used as a parameter. -/
theorem parameterFor_run {argument : Argument}
    (hyields : (d.parameterFor s argument).Yields P (reference, d')) :
    Run.Value P s d argument reference d' := by
  cases argument with
  | literal text =>
    obtain ⟨rfl, rfl⟩ := Recorded.yields_pure_pair hyields
    exact .constant text
  | graphInput input type =>
    obtain ⟨kind, hfind, ⟨rfl, hyields⟩ | ⟨hne, rfl, rfl⟩⟩ := parameterFor_input hyields
    · obtain ⟨name, rfl, hconversion⟩ := convert_run hyields
      exact .convertedInput type hfind hconversion
    · exact .input type hfind hne
  | taskOutput source =>
    obtain ⟨task, htask, hyields⟩ := parameterFor_output hyields
    obtain ⟨name, rfl, hconversion⟩ := convert_run hyields
    exact .convertedOutput htask hconversion

/-- An input that is used as a file. -/
theorem artifactFor_steps {argument : Argument} {inputName : String}
    (hok : d.artifactFor inputName argument = .ok (reference, d')) :
    d.BindsFile argument reference d' := by
  cases argument with
  | literal text => cases hok
  | graphInput input type =>
    unfold Draft.artifactFor at hok
    obtain ⟨kind, hkind, hok⟩ := bind_eq_ok.mp hok
    -- A parameter of the graph is no file and is refused, so the input is one.
    split at hok
    next => cases hok
    next hne =>
      obtain ⟨rfl, rfl⟩ := Prod.mk.inj (pure_eq_ok.mp hok)
      exact .input type (fetch_eq_ok.mp hkind) fun he => hne he
  | taskOutput source =>
    unfold Draft.artifactFor at hok
    obtain ⟨r, hr, hok⟩ := bind_eq_ok.mp hok
    obtain ⟨rfl, rfl⟩ := Prod.mk.inj (pure_eq_ok.mp hok)
    obtain ⟨task, htask, rfl⟩ := taskArtifact_eq_ok.mp hr
    exact .output htask

/-- The inputs that are used as parameters. -/
theorem bindParameters_run {b : Binder} {names : List String}
    {bindings : List (String × Reference)}
    (hyields : (b.bindParameters s names d).Yields P (bindings, d')) :
    Draft.BindsAll (Run.Value P s) b d names bindings d' := by
  -- By induction on the inputs: the binder goes through them in the order of the list.
  induction names generalizing d bindings with
  | nil =>
    obtain ⟨rfl, rfl⟩ := Recorded.yields_pure_pair hyields
    exact .nil d
  | cons name rest ih =>
    unfold Binder.bindParameters at hyields
    obtain ⟨argument, hargument, hyields⟩ := Recorded.yields_bind.mp hyields
    have hgiven := binderArgument_given hargument
    obtain ⟨hdeclared, rfl⟩ := binderArgument_spec hargument
    obtain ⟨⟨r, d₁⟩, hparameter, hyields⟩ := Recorded.yields_bind.mp hyields
    obtain ⟨⟨others, d₂⟩, hrest, hyields⟩ := Recorded.yields_bind.mp hyields
    obtain ⟨rfl, rfl⟩ := Recorded.yields_pure_pair hyields
    exact .cons hdeclared (parameterFor_run hparameter) (ih hrest) hgiven

/-- The inputs that are used as files. -/
theorem bindArtifacts_steps {b : Binder} {names : List String}
    {bindings : List (String × Reference)}
    (hyields : (b.bindArtifacts names d).Yields P (bindings, d')) :
    Draft.BindsAll Draft.BindsFile b d names bindings d' := by
  -- By induction on the inputs, as for parameters; files need no conversion, so nothing is
  -- interned.
  induction names generalizing d bindings with
  | nil =>
    obtain ⟨rfl, rfl⟩ := Recorded.yields_pure_pair hyields
    exact .nil d
  | cons name rest ih =>
    unfold Binder.bindArtifacts at hyields
    obtain ⟨argument, hargument, hyields⟩ := Recorded.yields_bind.mp hyields
    have hgiven := binderArgument_given hargument
    obtain ⟨hdeclared, rfl⟩ := binderArgument_spec hargument
    obtain ⟨⟨r, d₁⟩, hartifact, hyields⟩ := Recorded.yields_bind.mp hyields
    obtain ⟨⟨others, d₂⟩, hrest, hyields⟩ := Recorded.yields_bind.mp hyields
    obtain ⟨rfl, rfl⟩ := Recorded.yields_pure_pair hyields
    exact .cons hdeclared (artifactFor_steps (Recorded.yields_lift.mp hartifact)) (ih hrest) hgiven

/-- A task. -/
theorem addTask_run {id : String} {b : Binder} {path : List String} {blueprint : Blueprint}
    (hyields : (addTask s id b path blueprint d).Yields P d') :
    Run.Task P s id b blueprint d d' := by
  unfold addTask at hyields
  obtain ⟨⟨template, templates⟩, htemplate, hyields⟩ := Recorded.yields_bind.mp hyields
  obtain ⟨⟨parameters, d₁⟩, hparameters, hyields⟩ := Recorded.yields_bind.mp hyields
  obtain ⟨⟨artifacts, d₂⟩, hartifacts, hyields⟩ := Recorded.yields_bind.mp hyields
  obtain ⟨name, hname, hyields⟩ := Recorded.yields_bind.mp hyields
  obtain ⟨u, -, hyields⟩ := Recorded.yields_bind.mp hyields
  obtain rfl := Recorded.yields_pure.mp hyields
  exact .intro (addTemplate_interned htemplate) (bindParameters_run hparameters)
    (bindArtifacts_steps hartifacts) (fetch_eq_ok.mp (Recorded.yields_lift.mp hname))

/-- **The tasks of a graph.** -/
theorem runTasks_run {tasks : List (String × GraphTask)} {order : List String}
    (hyields : (runTasks (taskSteps s tasks) order d).Yields P d') :
    Run.Tasks P s tasks order d d' := by
  -- By induction on the order.
  induction order generalizing d with
  | nil =>
    obtain rfl := Recorded.yields_pure.mp hyields
    exact .nil d
  | cons id rest ih =>
    obtain ⟨task, d₁, htask, hd₁, hothers⟩ := yields_runTasks_cons hyields
    obtain ⟨component, kinds, blueprint, templates, hspec, hkinds, hmade, hadded⟩ :=
      taskStep_cases hd₁
    exact .cons htask hspec hkinds hmade (addTask_run hadded) (ih hothers)

/-- A container, which adds no templates. -/
theorem container_runs {c : Component} {container : Container}
    (himpl : c.implementation = .container container) {arguments : Keyed Argument}
    {kinds : Keyed InputKind} {path : List String} {templates templates' : Registry Template}
    {blueprint : Blueprint}
    (hyields : (componentBlueprint s arguments kinds path templates c).Yields P
      (blueprint, templates')) :
    templates' = templates ∧ containerBlueprint s c container arguments = .ok blueprint := by
  rw [componentBlueprint_container himpl] at hyields
  obtain ⟨made, hmade, hyields⟩ := Recorded.yields_bind.mp hyields
  obtain ⟨rfl, rfl⟩ := Recorded.yields_pure_pair hyields
  exact ⟨rfl, Recorded.yields_lift.mp hmade⟩

/-- **A graph**, from the scope with which it begins to its blueprint. -/
theorem graph_run {c : Component} {g : Graph} (himpl : c.implementation = .graph g)
    {arguments : Keyed Argument} {kinds : Keyed InputKind} {path : List String}
    {templates templates' : Registry Template} {blueprint : Blueprint}
    (hyields : (componentBlueprint s arguments kinds path templates c).Yields P
      (blueprint, templates')) :
    ∃ order scope d, g.order c.inputNames = .ok order ∧
      Scope.start s path kinds order = .ok scope ∧
      Run.Tasks P s g.tasks order { templates, scope } d ∧ d.templates = templates' ∧
      graphBlueprint d.scope g.outputValues = .ok blueprint := by
  rw [componentBlueprint_graph himpl] at hyields
  obtain ⟨order, horder, hyields⟩ := Recorded.yields_bind.mp hyields
  obtain ⟨scope, hscope, hyields⟩ := Recorded.yields_bind.mp hyields
  obtain ⟨d, hrun, hyields⟩ := Recorded.yields_bind.mp hyields
  obtain ⟨made, hmade, hyields⟩ := Recorded.yields_bind.mp hyields
  obtain ⟨rfl, rfl⟩ := Recorded.yields_pure_pair hyields
  exact ⟨order, scope, d, Recorded.yields_lift.mp horder, Recorded.yields_lift.mp hscope,
    runTasks_run hrun, rfl, Recorded.yields_lift.mp hmade⟩

/-! ### The names in a draft -/

/-- What holds of the names in a draft, whether digests tell texts apart or not.  The tasks `done`
    are compiled. -/
structure Draft.Named (P : String → Prop) (d : Draft) (done : List String) : Prop where
  templates : d.templates.Sound P Template.record
  tasks : d.scope.tasks.Sound P DagTask.record
  /-- The names of the tasks of the graph are in use, and never those of conversions. -/
  reserved : ∀ id name, Keyed.find? d.scope.taskNames id = some name →
    name ∈ d.scope.tasks.names.used ∧ name ∉ d.scope.tasks.names.keptNames
  distinct : ∀ id id' name, Keyed.find? d.scope.taskNames id = some name →
    Keyed.find? d.scope.taskNames id' = some name → id = id'
  defined : ∀ name ∈ Keyed.keys d.scope.tasks.entries,
    name ∈ d.scope.tasks.names.keptNames ∨
      ∃ id ∈ done, Keyed.find? d.scope.taskNames id = some name
  /-- Tasks that are compiled stand under their names, and conversions under theirs. -/
  placed : ∀ id ∈ done, ∃ name, Keyed.find? d.scope.taskNames id = some name ∧
    name ∈ Keyed.keys d.scope.tasks.entries
  converts : ∀ name ∈ d.scope.tasks.names.keptNames, ∃ template source,
    Keyed.find? d.scope.tasks.entries name = some (.conversion template source)
  nonempty : "" ∉ d.scope.tasks.names.used

namespace Draft

variable {done : List String}

/-- The scope with which a graph begins. -/
theorem named_start {path : List String} {kinds : Keyed InputKind} {order : List String}
    {scope : Scope} (hok : Scope.start s path kinds order = .ok scope)
    {templates : Registry Template} (ht : templates.Sound P Template.record) :
    Draft.Named P { templates, scope } [] := by
  obtain ⟨names, a, hgiven, rfl⟩ := start_eq hok
  obtain ⟨hreserved, -⟩ := reserveAll_spec (reserved_empty s) hgiven
  exact {
    templates := ht
    tasks := hreserved.sound rfl
    reserved := fun id name hname => ⟨hreserved.used id name hname, hreserved.not_kept name⟩
    distinct := hreserved.distinct
    defined := fun _ hname => nomatch hname
    placed := fun _ hid => nomatch hid
    converts := fun name hname => absurd hname (hreserved.not_kept name)
    nonempty := reserveAll_nonempty List.not_mem_nil hgiven }

/-- Templates may be added. -/
theorem Named.withTemplates (h : d.Named P done) {templates : Registry Template}
    (ht : templates.Sound P Template.record) : Draft.Named P { d with templates } done :=
  { h with templates := ht }

/-- A task that is stored stands behind the others, or among them. -/
theorem keys_of_stored {tasks tasks' : Registry DagTask} {task : DagTask} {name : String}
    (h : Registry.Stored P DagTask.record tasks task name tasks') :
    ∀ n, n ∈ Keyed.keys tasks'.entries ↔ n ∈ Keyed.keys tasks.entries ∨ n = name := by
  intro n
  have hlisted := h.listed
  rcases h.appended with ⟨heq, -⟩ | ⟨-, heq, -⟩
  · rw [heq] at hlisted ⊢
    exact ⟨.inl, fun hn => hn.elim id (· ▸ hlisted)⟩
  · rw [heq, Keyed.keys_append]
    simp [Keyed.keys]

/-- A conversion may be stored. -/
theorem Named.store (h : d.Named P done) {template name : String} {source : Reference}
    {tasks : Registry DagTask}
    (hstored : Registry.Stored P DagTask.record d.scope.tasks (.conversion template source) name
      tasks) : Draft.Named P { d with scope := { d.scope with tasks } } done where
  templates := h.templates
  tasks := hstored.sound
  reserved := by
    intro id n hn
    obtain ⟨hused, hkept⟩ := h.reserved id n hn
    exact ⟨hstored.grows.used n hused, hstored.grows.not_kept hused hkept⟩
  distinct := h.distinct
  defined := by
    intro n hn
    rcases (keys_of_stored hstored n).mp hn with hn | rfl
    · exact (h.defined n hn).imp_left (hstored.keptMono n)
    · exact .inl hstored.kept
  placed := by
    intro id hid
    obtain ⟨n, hn, hmem⟩ := h.placed id hid
    exact ⟨n, hn, (keys_of_stored hstored n).mpr (.inl hmem)⟩
  -- All names that are kept belong to conversions: those of before, and the one that is stored if
  -- it is new.
  converts := by
    intro n hn
    change n ∈ tasks.names.keptNames at hn
    have hold : ∀ n ∈ d.scope.tasks.names.keptNames, ∃ template source,
        Keyed.find? tasks.entries n = some (.conversion template source) := by
      intro n hn
      obtain ⟨template', source', hfind⟩ := h.converts n hn
      exact ⟨template', source', hstored.grows.within _ _ hfind⟩
    rcases hstored.appended with ⟨-, heq⟩ | ⟨hnew, hentries, heq⟩
    · exact hold n (heq ▸ hn)
    · rw [heq, List.mem_append, List.mem_singleton] at hn
      rcases hn with hn | rfl
      · exact hold n hn
      · refine ⟨template, source, Keyed.find?_of_mem hstored.sound.nodup ?_⟩
        rw [hentries]
        simp
  nonempty := hstored.nonempty h.nonempty

/-- The name that is reserved for a task is in use neither for a conversion nor for another task. -/
theorem Named.isNew (h : d.Named P done) {id name : String}
    (hname : Keyed.find? d.scope.taskNames id = some name) (hid : id ∉ done) :
    name ∉ Keyed.keys d.scope.tasks.entries := by
  intro hmem
  rcases h.defined name hmem with hkept | ⟨other, hother, hfind⟩
  · exact (h.reserved id name hname).2 hkept
  · exact hid (h.distinct id other name hname hfind ▸ hother)

/-- A task may be defined under the name that is reserved for it. -/
theorem Named.define (h : d.Named P done) {id name : String}
    (hname : Keyed.find? d.scope.taskNames id = some name) (hid : id ∉ done) (task : DagTask) :
    Draft.Named P { d with scope := { d.scope with tasks := d.scope.tasks.define name task } }
      (done ++ [id]) := by
  obtain ⟨hused, hkept⟩ := h.reserved id name hname
  have hnew := h.isNew hname hid
  have hkeys : ∀ n, n ∈ Keyed.keys (d.scope.tasks.define name task).entries ↔
      n ∈ Keyed.keys d.scope.tasks.entries ∨ n = name := by
    intro n
    rw [Registry.define_entries hnew, Keyed.keys_append]
    simp [Keyed.keys]
  refine ⟨h.templates, Registry.define_sound h.tasks hused hnew task, h.reserved, h.distinct,
    fun n hn => ?_, fun other hother => ?_, fun n hn => ?_, h.nonempty⟩
  -- The names in the table are those of before and the one defined now; the latter was reserved for
  -- `id`, which is placed from here on.
  · rcases (hkeys n).mp hn with hn | rfl
    · rcases h.defined n hn with hmem | ⟨other, hother, hfind⟩
      · exact .inl hmem
      · exact .inr ⟨other, List.mem_append_left _ hother, hfind⟩
    · exact .inr ⟨id, by simp, hname⟩
  · rcases List.mem_append.mp hother with hother | hother
    · obtain ⟨n, hn, hmem⟩ := h.placed other hother
      exact ⟨n, hn, (hkeys n).mpr (.inl hmem)⟩
    · obtain rfl := List.mem_singleton.mp hother
      exact ⟨name, hname, (hkeys name).mpr (.inr rfl)⟩
  · obtain ⟨template, source, hfind⟩ := h.converts n hn
    exact ⟨template, source, Keyed.within_put hnew task _ _ hfind⟩

/-- An input may be used. -/
theorem Named.use (h : d.Named P done) (parameters artifacts : List String) :
    Draft.Named P { d with scope := { d.scope with parameters, artifacts } } done :=
  { h with }

end Draft

/-! ### Runs keep names -/

variable {done : List String}

/-- What a conversion leaves: its name is that of a task, and at most this task was added. -/
theorem Run.Conversion.named {source : Reference} {name : String}
    (h : Run.Conversion P s d source name d') (hnamed : d.Named P done) :
    d'.Named P done ∧ d.Grows d' := by
  obtain ⟨t, template, templates, tasks, -, htemplate, htask, rfl⟩ := h.exists_interned
  have ht := htemplate.stored hnamed.templates
  have hstored := htask.stored hnamed.tasks
  exact ⟨(hnamed.withTemplates ht.sound).store hstored,
    (Draft.grows_withTemplates ht.grows).trans (Draft.grows_withTasks hstored.grows)⟩

/-- A binding. -/
theorem Run.Value.named {argument : Argument} (h : Run.Value P s d argument reference d')
    (hnamed : d.Named P done) : d'.Named P done ∧ d.Grows d' := by
  cases h with
  | constant => exact ⟨hnamed, .refl d⟩
  | input => exact ⟨hnamed.use _ _, grows_useParameter d _⟩
  | convertedInput _ _ converted =>
    obtain ⟨hnamed', hgrows⟩ := converted.named (hnamed.use _ _)
    exact ⟨hnamed', (grows_useArtifact d _).trans hgrows⟩
  | convertedOutput _ converted => exact converted.named hnamed

/-- A binding leaves it as it was known of the inputs of the graph. -/
theorem Run.Value.kinds {argument : Argument} (h : Run.Value P s d argument reference d') :
    d'.scope.kinds = d.scope.kinds := by
  cases h with
  | constant | input => rfl
  | convertedInput _ _ converted | convertedOutput _ converted =>
    obtain ⟨t, template, templates, tasks, -, -, -, rfl⟩ := converted.exists_interned
    rfl

/-- What is known of an argument depends on the inputs of the graph alone. -/
theorem kindOf_congr {scope scope' : Scope} (h : scope'.kinds = scope.kinds)
    (argument : Option Argument) : scope'.kindOf argument = scope.kindOf argument := by
  unfold Scope.kindOf
  rw [h]

/-- A binding of a file takes nothing back. -/
theorem Draft.BindsFile.grows {argument : Argument} (h : d.BindsFile argument reference d') :
    d.Grows d' := by
  cases h with
  | input => exact grows_useArtifact d _
  | output => exact .refl d

/-- A binding of a file. -/
theorem Draft.BindsFile.named {argument : Argument} (h : d.BindsFile argument reference d')
    (hnamed : d.Named P done) : d'.Named P done ∧ d.Grows d' := by
  refine ⟨?_, h.grows⟩
  cases h with
  | input => exact hnamed.use _ _
  | output => exact hnamed

/-- An invariant that every binding keeps is kept by all of them. -/
theorem Draft.BindsAll.keeps {binds : Draft → Argument → Reference → Draft → Prop}
    {I : Draft → Prop}
    (hbinds : ∀ d argument reference d', binds d argument reference d' → I d → I d')
    {b : Binder}
    {d d' : Draft} {names : List String} {bindings : List (String × Reference)}
    (h : Draft.BindsAll binds b d names bindings d') (hI : I d) : I d' := by
  induction h with
  | nil => exact hI
  | cons _ first _ _ ih => exact ih (hbinds _ _ _ _ first hI)

/-- Bindings take nothing back. -/
theorem Draft.BindsAll.grows {binds : Draft → Argument → Reference → Draft → Prop}
    (hbinds : ∀ d argument reference d', binds d argument reference d' → d.Grows d')
    {b : Binder}
    {d d' : Draft} {names : List String} {bindings : List (String × Reference)}
    (h : Draft.BindsAll binds b d names bindings d') : d.Grows d' :=
  h.keeps (fun _ _ _ _ hstep hd => hd.trans (hbinds _ _ _ _ hstep)) (.refl d)

/-- The bindings of a task. -/
theorem Draft.BindsAll.named {binds : Draft → Argument → Reference → Draft → Prop}
    (hbinds : ∀ d argument reference d', binds d argument reference d' → d.Named P done →
      d'.Named P done ∧ d.Grows d') {b : Binder} {names : List String}
    {bindings : List (String × Reference)} (h : Draft.BindsAll binds b d names bindings d')
    (hnamed : d.Named P done) : d'.Named P done ∧ d.Grows d' := by
  refine h.keeps (I := fun d' => d'.Named P done ∧ d.Grows d') (fun _ _ _ _ hstep hd => ?_)
    ⟨hnamed, .refl _⟩
  obtain ⟨hnamed', hgrows⟩ := hbinds _ _ _ _ hstep hd.1
  exact ⟨hnamed', hd.2.trans hgrows⟩

/-- A task. -/
theorem Run.Task.named {id : String} {b : Binder} {blueprint : Blueprint}
    (h : Run.Task P s id b blueprint d d') (hnamed : d.Named P done) (hid : id ∉ done) :
    d'.Named P (done ++ [id]) ∧ d.Grows d' := by
  cases h with
  | intro interned values files named =>
    have ht := interned.stored hnamed.templates
    obtain ⟨hnamed₁, hgrows₁⟩ := values.named (fun _ _ _ _ hbinds => hbinds.named)
      (hnamed.withTemplates ht.sound)
    obtain ⟨hnamed₂, hgrows₂⟩ := files.named (fun _ _ _ _ hbinds => hbinds.named) hnamed₁
    exact ⟨hnamed₂.define named hid _,
      ((Draft.grows_withTemplates ht.grows).trans (hgrows₁.trans hgrows₂)).trans
        (Draft.grows_withTasks (Registry.define_grows (hnamed₂.isNew named hid) _))⟩

/-- A component whose compilation adds templates and takes none back. -/
def Stores (P : String → Prop) (s : Settings) (c : Component) : Prop :=
  ∀ arguments kinds path templates blueprint templates', templates.Sound P Template.record →
    (componentBlueprint s arguments kinds path templates c).Yields P (blueprint, templates') →
      templates'.Sound P Template.record ∧ templates.Grows templates'

/-- **The tasks of a graph**, if each component does. -/
theorem Run.Tasks.named {tasks : List (String × GraphTask)} {order : List String}
    (h : Run.Tasks P s tasks order d d')
    (hinner : ∀ entry ∈ tasks, ∀ inner, entry.2.reference.spec = some inner →
      Stores P s inner)
    (hnodup : (done ++ order).Nodup) (hnamed : d.Named P done) :
    d'.Named P (done ++ order) ∧ d.Grows d' := by
  -- By induction on the run; a task that comes later has another id.
  induction h generalizing done with
  | nil => exact ⟨by simpa using hnamed, .refl _⟩
  | @cons d d₁ d₂ id rest task component kinds blueprint templates found spec _
      made added _ ih =>
    have hid : id ∉ done := fun hmem =>
      (List.nodup_append.mp hnodup).2.2 id hmem id List.mem_cons_self rfl
    obtain ⟨ht, hgrowsT⟩ := hinner _ (Keyed.mem_of_find? found) component spec _ _ _ _ _ _
      hnamed.templates made
    obtain ⟨hnamed₁, hgrows₁⟩ := added.named (hnamed.withTemplates ht) hid
    obtain ⟨hnamed₂, hgrows₂⟩ := ih (by simpa using hnodup) hnamed₁
    exact ⟨by simpa using hnamed₂,
      ((Draft.grows_withTemplates hgrowsT).trans hgrows₁).trans hgrows₂⟩

/-- **Every component, to any depth,** adds templates and takes none back. -/
theorem blueprint_stores (c : Component) : Stores P s c := by
  induction c using Component.nesting with
  | container c container himpl =>
    intro arguments kinds path templates blueprint templates' ht hyields
    obtain ⟨rfl, -⟩ := container_runs himpl hyields
    exact ⟨ht, .refl _⟩
  | graph c g himpl ih =>
    intro arguments kinds path templates blueprint templates' ht hyields
    obtain ⟨order, scope, d, horder, hscope, hrun, rfl, -⟩ := graph_run himpl hyields
    have hnodup : ([] ++ order).Nodup := (order_planned horder).nodup
    obtain ⟨hnamed, hgrows⟩ := hrun.named ih hnodup (Draft.named_start hscope ht)
    exact ⟨hnamed.templates, hgrows.templates⟩

end PipelineCompiler.Argo
