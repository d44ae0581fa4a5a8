import PipelineCompiler.Proofs.Argo.Run

namespace PipelineCompiler.Argo

/-!
# Everything that happens to a draft

What a compilation does to its draft, as a relation between the draft before and the draft after.
An invariant of compilations is shown for these few cases, and the code is not opened for it.

* `Draft.Converted` — a conversion is added, or shared;
* `Draft.BindsValue`, `Draft.BindsFile` — an input gets its binding;
* `Draft.BindsAll` — the inputs of a task get their bindings, one after another;
* `Draft.AddsTask` — a task becomes part of its graph;
* `Draft.Runs` — the tasks of a graph are compiled;
* `Draft.Runs.grows` — none of this takes anything back;
* `convert_steps` … `graph_runs` — the code does nothing else.
-/

variable {P : String → Prop} {s : Settings}

/-! ### What happens -/

/-- An artifact is converted: the template and the task are added, or they are there already. -/
structure Draft.Converted (P : String → Prop) (s : Settings) (d : Draft) (source : Reference)
    (name : String) (d' : Draft) : Prop where
  exists_shared : ∃ t template templates tasks, conversionTemplate s = .ok t ∧
    Registry.Shared P Template.record d.templates t template templates ∧
    Registry.Shared P DagTask.record d.scope.tasks (.conversion template source) name tasks ∧
    d' = { templates, scope := { d.scope with tasks } }

/-- An input that is used as a parameter is bound to what its argument refers to. -/
inductive Draft.BindsValue (P : String → Prop) (s : Settings) (d : Draft) :
    Argument → Reference → Draft → Prop
  | constant (text : String) : BindsValue P s d (.literal text) (.constant text) d
  | input {name : String} {kind : InputKind} (type : Value)
      (found : Keyed.find? d.scope.kinds name = some kind) (kindNe : kind ≠ .artifact) :
      BindsValue P s d (.graphInput name type) (.parameter (sanitizeIoName name))
        { d with scope := (d.scope.useParameter name).2 }
  | convertedInput {name conversion : String} {d' : Draft} (type : Value)
      (found : Keyed.find? d.scope.kinds name = some .artifact)
      (converted : Draft.Converted P s { d with scope := (d.scope.useArtifact name).2 }
        (.artifact (sanitizeIoName name)) conversion d') :
      BindsValue P s d (.graphInput name type) (.taskParameter conversion conversionOutput) d'
  | convertedOutput {source : TaskOutput} {task conversion : String} {d' : Draft}
      (found : Keyed.find? d.scope.taskNames source.task = some task)
      (converted : Draft.Converted P s d
        (.taskArtifact task (sanitizeIoName source.output)) conversion d') :
      BindsValue P s d (.taskOutput source) (.taskParameter conversion conversionOutput) d'

/-- A task becomes part of its graph: its template is added or shared, its inputs get their
    bindings, and it is defined under the name that was reserved for it. -/
inductive Draft.AddsTask (P : String → Prop) (s : Settings) (id : String) (b : Binder)
    (blueprint : Blueprint) (d : Draft) : Draft → Prop
  | intro {template name : String} {templates : Registry Template} {d₁ d₂ : Draft}
      {parameters artifacts : List (String × Reference)}
      (shared : Registry.Shared P Template.record d.templates blueprint.template template templates)
      (values : Draft.BindsAll (Draft.BindsValue P s) b { d with templates } blueprint.parameters
        parameters d₁)
      (files : Draft.BindsAll Draft.BindsFile b d₁ blueprint.artifacts artifacts d₂)
      (named : Keyed.find? d₂.scope.taskNames id = some name)
      (isNew : name ∉ Keyed.keys d₂.scope.tasks.entries) :
      AddsTask P s id b blueprint d { d₂ with scope := { d₂.scope with
        tasks := d₂.scope.tasks.define name (.step template parameters artifacts) } }

/-- The tasks of a graph are compiled in an order: the component of a task first, then the task is
    added. -/
inductive Draft.Runs (P : String → Prop) (s : Settings) (tasks : List (String × GraphTask)) :
    List String → Draft → Draft → Prop
  | nil (d : Draft) : Runs P s tasks [] d d
  | cons {d d₁ d₂ : Draft} {id : String} {rest : List String} {task : GraphTask}
      {component : Component} {kinds : Keyed InputKind} {blueprint : Blueprint}
      {templates : Registry Template} (found : Keyed.find? tasks id = some task)
      (spec : task.reference.spec = some component)
      (kinded : d.scope.kindsOf task.arguments component.inputs = .ok kinds)
      (before : TemplatesSound P d.templates)
      (made : (componentBlueprint s task.arguments kinds (d.scope.path ++ [id]) d.templates
        component).Yields P (blueprint, templates))
      (sound : BlueprintSound P d.templates blueprint templates)
      (added : Draft.AddsTask P s id
        { component, arguments := task.arguments, place := placeOf (d.scope.path ++ [id]) }
        blueprint { d with templates } d₁)
      (runs : Runs P s tasks rest d₁ d₂) : Runs P s tasks (id :: rest) d d₂

/-! ### What happens takes nothing back -/

/-- A conversion takes nothing back. -/
theorem Draft.Converted.grows {d d' : Draft} {source : Reference} {name : String}
    (h : d.Converted P s source name d') : d.Grows d' := by
  obtain ⟨t, template, templates, tasks, -, htemplate, htask, rfl⟩ := h.exists_shared
  exact (Draft.grows_withTemplates htemplate.grows).trans (Draft.grows_withTasks htask.grows)

/-- A binding takes nothing back. -/
theorem Draft.BindsValue.grows {d d' : Draft} {argument : Argument} {reference : Reference}
    (h : d.BindsValue P s argument reference d') : d.Grows d' := by
  cases h with
  | constant => exact .refl d
  | input => exact grows_useParameter d _
  | convertedInput _ _ converted => exact (grows_useArtifact d _).trans converted.grows
  | convertedOutput _ converted => exact converted.grows

/-- A task takes nothing back. -/
theorem Draft.AddsTask.grows {id : String} {b : Binder} {blueprint : Blueprint} {d d' : Draft}
    (h : d.AddsTask P s id b blueprint d') : d.Grows d' := by
  cases h with
  | intro shared values files _ isNew =>
    have hvalues := values.grows fun _ _ _ _ hbinds => hbinds.grows
    have hfiles := files.grows fun _ _ _ _ hbinds => hbinds.grows
    exact ((Draft.grows_withTemplates shared.grows).trans (hvalues.trans hfiles)).trans
      (Draft.grows_withTasks (Registry.define_grows isNew _))

/-- The tasks of a graph take nothing back. -/
theorem Draft.Runs.grows {tasks : List (String × GraphTask)} {order : List String} {d d' : Draft}
    (h : Draft.Runs P s tasks order d d') : d.Grows d' := by
  induction h with
  | nil => exact .refl _
  | cons _ _ _ _ _ sound added _ ih =>
    exact ((Draft.grows_withTemplates sound.grows).trans added.grows).trans ih

/-! ### Nothing else happens -/

variable {d d' : Draft} {done : List String} {pending : List Reference} {reference : Reference}

/-- A conversion. -/
theorem convert_steps (hsep : Separates P) {source : Reference} {stem : String}
    (h : d.Sound P done pending) (hyields : (d.convert s source stem).Yields P (reference, d')) :
    ∃ name, reference = .taskParameter name conversionOutput ∧
      d.Converted P s source name d' := by
  obtain ⟨name, rfl, hconversion⟩ := convert_run hyields
  obtain ⟨t, template, templates, tasks, ht, htemplate, htask, rfl⟩ :=
    hconversion.exists_interned
  exact ⟨name, rfl, t, template, templates, tasks, ht, htemplate.shared hsep h.templates.sound,
    htask.shared hsep h.tasks, rfl⟩

/-- An input that is used as a parameter. -/
theorem parameterFor_steps (hsep : Separates P) {argument : Argument}
    (h : d.Sound P done pending)
    (hyields : (d.parameterFor s argument).Yields P (reference, d')) :
    d.BindsValue P s argument reference d' := by
  -- A literal changes nothing, an input is a parameter already or has to be converted, and an
  -- output always has to be.
  cases argument with
  | literal text =>
    obtain ⟨rfl, rfl⟩ := Recorded.yields_pure_pair hyields
    exact .constant text
  | graphInput input type =>
    obtain ⟨kind, hfind, ⟨rfl, hyields⟩ | ⟨hne, rfl, rfl⟩⟩ := parameterFor_input hyields
    · obtain ⟨name, rfl, hconverted⟩ := convert_steps hsep (useArtifact_sound h input) hyields
      exact .convertedInput type hfind hconverted
    · exact .input type hfind hne
  | taskOutput source =>
    obtain ⟨task, htask, hyields⟩ := parameterFor_output hyields
    obtain ⟨name, rfl, hconverted⟩ := convert_steps hsep h hyields
    exact .convertedOutput htask hconverted

/-- The inputs that are used as parameters. -/
theorem bindParameters_steps (hsep : Separates P) {b : Binder} {names : List String}
    {bindings : List (String × Reference)} (h : d.Sound P done pending)
    (hyields : (b.bindParameters s names d).Yields P (bindings, d')) :
    Draft.BindsAll (Draft.BindsValue P s) b d names bindings d' := by
  -- By induction on the names, with what is pending growing by one binding at a time.
  induction names generalizing d pending bindings with
  | nil =>
    obtain ⟨rfl, rfl⟩ := Recorded.yields_pure_pair hyields
    exact .nil d
  | cons name rest ih =>
    unfold Binder.bindParameters at hyields
    obtain ⟨argument, hargument, hyields⟩ := Recorded.yields_bind.mp hyields
    have hgiven := binderArgument_given hargument
    obtain ⟨hdeclared, rfl⟩ := binderArgument_spec hargument
    obtain ⟨⟨r, d₁⟩, hparameter, hyields⟩ := Recorded.yields_bind.mp hyields
    obtain ⟨⟨others, d₂⟩, hrest, hyields⟩ := Recorded.yields_bind.mp hyields
    obtain ⟨rfl, rfl⟩ := Recorded.yields_pure_pair hyields
    obtain ⟨hsound, -, -⟩ := parameterFor_spec hsep h hparameter
    exact .cons hdeclared (parameterFor_steps hsep h hparameter) (ih hsound hrest) hgiven

/-- A task. -/
theorem addTask_steps (hsep : Separates P) {id : String} {b : Binder} {path : List String}
    {blueprint : Blueprint} {templates : Registry Template} (h : d.Sound P done [])
    (hid : id ∉ done) (hblueprint : BlueprintSound P templates blueprint d.templates)
    (hyields : (addTask s id b path blueprint d).Yields P d') :
    d.AddsTask P s id b blueprint d' := by
  unfold addTask at hyields
  -- Step by step, with the draft sound after each of them: the template, the two lists of bindings,
  -- and the name.
  obtain ⟨⟨template, templates₁⟩, htemplate, hyields⟩ := Recorded.yields_bind.mp hyields
  obtain ⟨ht, hgrowsT, -⟩ := addTemplate_spec hsep h.templates hblueprint.closed htemplate
  obtain ⟨⟨parameters, d₁⟩, hparameters, hyields⟩ := Recorded.yields_bind.mp hyields
  have hsound := h.withTemplates ht hgrowsT
  obtain ⟨hsound₁, -, -⟩ := bindParameters_spec hsep hsound hparameters
  obtain ⟨⟨artifacts, d₂⟩, hartifacts, hyields⟩ := Recorded.yields_bind.mp hyields
  obtain ⟨hsound₂, -, -⟩ := bindArtifacts_spec hsound₁ hartifacts
  obtain ⟨name, hname, hyields⟩ := Recorded.yields_bind.mp hyields
  have hname := fetch_eq_ok.mp (Recorded.yields_lift.mp hname)
  obtain ⟨u, -, hyields⟩ := Recorded.yields_bind.mp hyields
  obtain rfl := Recorded.yields_pure.mp hyields
  exact .intro (addTemplate_shared hsep h.templates htemplate)
    (bindParameters_steps hsep hsound hparameters) (bindArtifacts_steps hartifacts) hname
    (hsound₂.name_isNew hname hid)

/-- **The tasks of a graph.** -/
theorem runTasks_runs (hsep : Separates P) {tasks : List (String × GraphTask)}
    {order : List String} (hnodup : (done ++ order).Nodup) (h : d.Sound P done [])
    (hyields : (runTasks (taskSteps s tasks) order d).Yields P d') :
    Draft.Runs P s tasks order d d' := by
  -- By induction on the order, with the tasks done so far: each step keeps the draft sound, which
  -- the next one starts from.
  induction order generalizing d done with
  | nil =>
    obtain rfl := Recorded.yields_pure.mp hyields
    exact .nil d
  | cons id rest ih =>
    obtain ⟨task, d₁, htask, hd₁, hyields⟩ := yields_runTasks_cons hyields
    have hid : id ∉ done := fun hmem =>
      (List.nodup_append.mp hnodup).2.2 id hmem id List.mem_cons_self rfl
    obtain ⟨hsound₁, -, -⟩ :=
      taskStep_spec hsep (fun _ _ => blueprint_sound hsep _) h hid hd₁
    have hnodup₁ : (done ++ [id] ++ rest).Nodup := by simpa using hnodup
    have hruns := ih hnodup₁ hsound₁ hyields
    obtain ⟨component, kinds, blueprint, templates, hspec, hkinds, hmade, hadded⟩ :=
      taskStep_cases hd₁
    have hblueprint := blueprint_sound hsep component _ _ _ _ _ _ h.templates hmade
    exact .cons htask hspec hkinds h.templates hmade hblueprint
      (addTask_steps hsep (h.withTemplates hblueprint.sound hblueprint.grows) hid hblueprint hadded)
      hruns

/-- **A graph**, from the scope with which it begins to its blueprint. -/
theorem graph_runs (hsep : Separates P) {c : Component} {g : Graph}
    (himpl : c.implementation = .graph g) {arguments : Keyed Argument} {kinds : Keyed InputKind}
    {path : List String} {templates templates' : Registry Template} {blueprint : Blueprint}
    (ht : TemplatesSound P templates)
    (hyields : (componentBlueprint s arguments kinds path templates c).Yields P
      (blueprint, templates')) :
    ∃ order scope d, g.order c.inputNames = .ok order ∧
      Scope.start s path kinds order = .ok scope ∧
      Draft.Runs P s g.tasks order { templates, scope } d ∧ d.Sound P order [] ∧
      d.templates = templates' ∧ graphBlueprint d.scope g.outputValues = .ok blueprint := by
  obtain ⟨implementation, name, description, inputs, outputs, metadata⟩ := c
  obtain rfl : implementation = .graph g := himpl
  obtain ⟨tasks, outputValues⟩ := g
  rw [componentBlueprint, implementationBlueprint] at hyields
  obtain ⟨order, horder, hyields⟩ := Recorded.yields_bind.mp hyields
  have horder := Recorded.yields_lift.mp horder
  obtain ⟨scope, hscope, hyields⟩ := Recorded.yields_bind.mp hyields
  have hscope := Recorded.yields_lift.mp hscope
  obtain ⟨hsound, -⟩ := start_spec hscope ht
  obtain ⟨d, hrun, hyields⟩ := Recorded.yields_bind.mp hyields
  -- The invariant holds of the scope with which a graph begins, when nothing is done yet.
  have hnodup : ([] ++ order).Nodup := (order_planned horder).nodup
  obtain ⟨hsound', -, -⟩ := runTasks_spec hsep (fun _ _ _ _ => blueprint_sound hsep _) hnodup
    hsound hrun
  obtain ⟨made, hmade, hyields⟩ := Recorded.yields_bind.mp hyields
  obtain ⟨rfl, rfl⟩ := Recorded.yields_pure_pair hyields
  exact ⟨order, scope, d, horder, hscope, runTasks_runs hsep hnodup hsound hrun, hsound', rfl,
    Recorded.yields_lift.mp hmade⟩

end PipelineCompiler.Argo
