import PipelineCompiler.Component.Basic
import PipelineCompiler.Proofs.Argo.Compile
import PipelineCompiler.Proofs.Traces

namespace PipelineCompiler.Argo

/-!
# Traces of workflows

* `Told` — some notes are those of a compilation, and their events tell which templates it adds;
* `addTemplate_told`, `addTask_told`, `blueprint_told` — one lemma for each step, up to components
  of any depth;
* `Traced`, `compile_traced` — the events of a whole compilation tell the templates of the
  workflow, and the last one its entrypoint.
-/

variable {P : String → Prop} {s : Settings} {target : String}

/-- Notes that a compilation takes while it adds templates.  Their events tell which. -/
structure Told (target : String) (notes : List Note) (templates templates' : Registry Template) :
    Prop where
  own : ∀ note ∈ notes, note.IsOwn
  names : templates.Told "template allocated" "template" (eventsOf target notes) templates'

variable {templates templates' templates₁ templates₂ : Registry Template}

/-- Templates are added in two steps. -/
theorem Told.append {notes later : List Note} (h : Told target notes templates templates₁)
    (h' : Told target later templates₁ templates₂) :
    Told target (notes ++ later) templates templates₂ where
  own := fun note hnote => (List.mem_append.mp hnote).elim (h.own note) (h'.own note)
  names := by
    rw [eventsOf_append]
    exact h.names.append h'.names

/-- No notes are taken. -/
theorem told_nil (target : String) (templates : Registry Template) :
    Told target [] templates templates where
  own := fun _ hnote => nomatch hnote
  names := Registry.told_same rfl rfl

/-- Warnings add no templates. -/
theorem told_warnings {α : Type} {x : Recorded α} (h : x.OnlyWarns) (target : String)
    (templates : Registry Template) : Told target x.notes templates templates where
  own := h.own
  names := Registry.told_same (reports_warnings (by decide) h) rfl

/-- Another event adds no templates. -/
theorem told_event {task level message : String} {extra : Keyed Value} (target : String)
    (templates : Registry Template) (hown : (Note.event task level message extra).IsOwn)
    (hmessage : message ≠ "template allocated") :
    Told target [.event task level message extra] templates templates where
  own := by
    rintro note hnote
    rw [List.mem_singleton.mp hnote]
    exact hown
  names := by
    refine Registry.told_same ?_ rfl
    rw [reports, eventsOf, List.map_singleton, Note.eventFor, List.filter_cons,
      textAt?_message hown.2.2.2, if_neg (by simpa)]
    rfl

/-! ### Steps -/

/-- **A template** is told of when it is new. -/
theorem addTemplate_told {stem : Except Failure String} {path : List String} {t : Template}
    {name : String} (hyields : (addTemplate s templates stem path t).Yields P (name, templates')) :
    Told target (addTemplate s templates stem path t).notes templates templates' := by
  unfold addTemplate at hyields ⊢
  obtain ⟨⟨given, isNew, added⟩, hintern, hyields, hnotes₁⟩ :=
    Recorded.yields_bind_notes hyields
  dsimp only at hyields hnotes₁
  obtain ⟨hyields, hnotes₂⟩ := Recorded.yields_log_when hyields
  obtain ⟨rfl, rfl⟩ := Recorded.yields_pure_pair hyields
  rw [hnotes₁, Registry.intern_notes, hnotes₂, List.nil_append]
  refine Told.append ⟨?_, Registry.told_intern hintern target _ _ (by decide)⟩ (told_nil _ _)
  -- At most one note, and it tells of the template that was added.
  intro note hnote
  split at hnote
  · rw [List.mem_singleton.mp hnote]
    exact ⟨by decide, by decide, by simp [Keyed.keys], by simp [Keyed.keys]⟩
  · cases hnote

variable {d d' : Draft}

/-- A conversion adds its template, if it is the first one. -/
theorem convert_told {source reference : Reference} {stem : String}
    (hyields : (d.convert s source stem).Yields P (reference, d')) :
    Told target (d.convert s source stem).notes d.templates d'.templates := by
  unfold Draft.convert at hyields ⊢
  obtain ⟨template, -, hyields, hnotes₁⟩ := Recorded.yields_lift_notes hyields
  obtain ⟨⟨name, templates⟩, hadd, hyields, hnotes₂⟩ := Recorded.yields_bind_notes hyields
  obtain ⟨⟨task, isNew, tasks⟩, hintern, hyields, hnotes₃⟩ :=
    Recorded.yields_bind_notes hyields
  dsimp only at hyields hnotes₂ hnotes₃
  obtain ⟨hyields, hnotes₄⟩ := Recorded.yields_log_when hyields
  obtain ⟨-, rfl⟩ := Recorded.yields_pure_pair hyields
  rw [hnotes₁, hnotes₂, hnotes₃, Registry.intern_notes, hnotes₄, List.nil_append]
  -- The template may be new, and so may the task.
  refine (addTemplate_told hadd).append (Told.append ?_ (told_nil _ _))
  split
  · exact told_event _ _
      ⟨by decide, by decide, by simp [Keyed.keys], by simp [Keyed.keys]⟩ (by decide)
  · exact told_nil _ _

/-- An input that is used as a parameter. -/
theorem parameterFor_told {argument : Argument} {reference : Reference}
    (hyields : (d.parameterFor s argument).Yields P (reference, d')) :
    Told target (d.parameterFor s argument).notes d.templates d'.templates := by
  -- Only what is available as an artifact is converted, and only a conversion adds a template.
  cases argument with
  | literal text =>
    obtain ⟨-, rfl⟩ := Recorded.yields_pure_pair hyields
    exact told_nil _ _
  | graphInput input declared =>
    unfold Draft.parameterFor at hyields ⊢
    obtain ⟨kind, -, hyields, hnotes⟩ := Recorded.yields_lift_notes hyields
    rw [hnotes]
    cases kind with
    | artifact => exact convert_told hyields
    | any | parameter =>
      obtain ⟨-, rfl⟩ := Recorded.yields_pure_pair hyields
      exact told_nil _ _
  | taskOutput source =>
    unfold Draft.parameterFor at hyields ⊢
    obtain ⟨given, -, hyields, hnotes⟩ := Recorded.yields_lift_notes hyields
    rw [hnotes]
    exact convert_told hyields

/-- The argument of an input. -/
theorem argument_onlyWarns (b : Binder) (name : String) : (b.argument name).OnlyWarns :=
  .bind (.of_nil rfl) fun _ => bound_onlyWarns _ _ _ _

/-- The inputs that are used as parameters. -/
theorem bindParameters_told {b : Binder} {names : List String}
    {bindings : List (String × Reference)}
    (hyields : (b.bindParameters s names d).Yields P (bindings, d')) :
    Told target (b.bindParameters s names d).notes d.templates d'.templates := by
  -- By induction on the inputs; missing arguments only warn, and conversions tell of themselves.
  induction names generalizing d bindings with
  | nil =>
    obtain ⟨-, rfl⟩ := Recorded.yields_pure_pair hyields
    exact told_nil _ _
  | cons name rest ih =>
    unfold Binder.bindParameters at hyields ⊢
    obtain ⟨argument, -, hyields, hnotes₁⟩ := Recorded.yields_bind_notes hyields
    obtain ⟨⟨value, d₁⟩, hvalue, hyields, hnotes₂⟩ := Recorded.yields_bind_notes hyields
    obtain ⟨⟨others, d₂⟩, hrest, hyields, hnotes₃⟩ := Recorded.yields_bind_notes hyields
    obtain ⟨-, rfl⟩ := Recorded.yields_pure_pair hyields
    rw [hnotes₁, hnotes₂, hnotes₃]
    exact (told_warnings (argument_onlyWarns b name) _ _).append
      ((parameterFor_told hvalue).append ((ih hrest).append (told_nil _ _)))

/-- An input that is used as a file leaves the templates alone. -/
theorem artifactFor_templates {name : String} {argument : Argument} {reference : Reference}
    (h : d.artifactFor name argument = .ok (reference, d')) : d'.templates = d.templates := by
  cases argument with
  | literal text => cases h
  | graphInput input declared =>
    obtain ⟨kind, -, h⟩ := bind_eq_ok.mp h
    cases kind with
    | parameter => cases h
    | any | artifact =>
      obtain ⟨-, rfl⟩ := Prod.mk.inj (pure_eq_ok.mp h)
      rfl
  | taskOutput source =>
    obtain ⟨given, -, h⟩ := bind_eq_ok.mp h
    obtain ⟨-, rfl⟩ := Prod.mk.inj (pure_eq_ok.mp h)
    rfl

/-- The inputs that are used as files. -/
theorem bindArtifacts_told {b : Binder} {names : List String}
    {bindings : List (String × Reference)}
    (hyields : (b.bindArtifacts names d).Yields P (bindings, d')) :
    Told target (b.bindArtifacts names d).notes d.templates d'.templates := by
  -- By induction on the names; what an argument notes are warnings, which tell of no template.
  induction names generalizing d bindings with
  | nil =>
    obtain ⟨-, rfl⟩ := Recorded.yields_pure_pair hyields
    exact told_nil _ _
  | cons name rest ih =>
    unfold Binder.bindArtifacts at hyields ⊢
    obtain ⟨argument, -, hyields, hnotes₁⟩ := Recorded.yields_bind_notes hyields
    obtain ⟨⟨value, d₁⟩, hvalue, hyields, hnotes₂⟩ := Recorded.yields_lift_notes hyields
    obtain ⟨⟨others, d₂⟩, hrest, hyields, hnotes₃⟩ := Recorded.yields_bind_notes hyields
    obtain ⟨-, rfl⟩ := Recorded.yields_pure_pair hyields
    rw [hnotes₁, hnotes₂, hnotes₃]
    refine (told_warnings (argument_onlyWarns b name) _ _).append ?_
    rw [← artifactFor_templates hvalue]
    exact (ih hrest).append (told_nil _ _)

/-- **A task**: its template, if that is new, and the templates of its conversions. -/
theorem addTask_told {id : String} {b : Binder} {path : List String} {blueprint : Blueprint}
    (hyields : (addTask s id b path blueprint d).Yields P d') :
    Told target (addTask s id b path blueprint d).notes d.templates d'.templates := by
  unfold addTask at hyields ⊢
  obtain ⟨⟨template, templates⟩, htemplate, hyields, hnotes₁⟩ :=
    Recorded.yields_bind_notes hyields
  obtain ⟨⟨parameters, d₁⟩, hparameters, hyields, hnotes₂⟩ :=
    Recorded.yields_bind_notes hyields
  obtain ⟨⟨artifacts, d₂⟩, hartifacts, hyields, hnotes₃⟩ :=
    Recorded.yields_bind_notes hyields
  obtain ⟨name, -, hyields, hnotes₄⟩ := Recorded.yields_lift_notes hyields
  obtain ⟨u, -, hyields, hnotes₅⟩ := Recorded.yields_bind_notes hyields
  obtain rfl := Recorded.yields_pure.mp hyields
  rw [hnotes₁, hnotes₂, hnotes₃, hnotes₄, hnotes₅]
  -- The notes come in the order of the steps: the template of the task first, then those of its
  -- conversions.
  refine (addTemplate_told htemplate).append ((bindParameters_told hparameters).append
    ((bindArtifacts_told hartifacts).append (Told.append ?_ (told_nil _ _))))
  exact told_event _ _
    ⟨by decide, by decide, by simp [Keyed.keys], by simp [Keyed.keys]⟩ (by decide)

/-! ### Components -/

/-- The events of the compilation of a component tell the templates that it adds. -/
def TellsTemplates (P : String → Prop) (s : Settings) (target : String) (c : Component) : Prop :=
  ∀ arguments kinds path templates blueprint templates',
    (componentBlueprint s arguments kinds path templates c).Yields P (blueprint, templates') →
      Told target (componentBlueprint s arguments kinds path templates c).notes templates templates'

/-- **A run over tasks** whose components tell their templates. -/
theorem runTasks_told {tasks : List (String × GraphTask)} {order : List String}
    (hinner : ∀ entry ∈ tasks, ∀ inner, entry.2.reference.spec = some inner →
      TellsTemplates P s target inner)
    (hyields : (runTasks (taskSteps s tasks) order d).Yields P d') :
    Told target (runTasks (taskSteps s tasks) order d).notes d.templates d'.templates := by
  induction order generalizing d with
  | nil =>
    obtain rfl := Recorded.yields_pure.mp hyields
    exact told_nil _ _
  | cons id rest ih =>
    unfold runTasks at hyields ⊢
    obtain ⟨step, hstep, hyields, hnotes₁⟩ := Recorded.yields_lift_notes hyields
    have hstep := fetch_eq_ok.mp hstep
    rw [find?_taskSteps] at hstep
    obtain ⟨task, htask, rfl⟩ := Option.map_eq_some_iff.mp hstep
    obtain ⟨d₁, hd₁, hyields, hnotes₂⟩ := Recorded.yields_bind_notes hyields
    have hd₁ := Recorded.yields_within.mp hd₁
    rw [hnotes₁, hnotes₂]
    refine Told.append ?_ (ih hyields)
    -- who a failure is attributed to changes none of the notes
    change Told target (taskStep s id task d).notes d.templates d₁.templates
    cases hspec : task.reference.spec with
    | none =>
      obtain ⟨⟨name, digest, tag, url, spec⟩, arguments, annotations⟩ := task
      obtain rfl : spec = none := hspec
      rw [taskStep] at hd₁
      exact absurd hd₁ Recorded.not_yields_throw
    | some component =>
      rw [taskStep_eq hspec] at hd₁ ⊢
      obtain ⟨kinds, -, hd₁, hnotes₃⟩ := Recorded.yields_lift_notes hd₁
      obtain ⟨⟨blueprint, templates⟩, hmade, hd₁, hnotes₄⟩ :=
        Recorded.yields_bind_notes hd₁
      rw [hnotes₃, hnotes₄]
      exact (hinner _ (Keyed.mem_of_find? htask) component hspec _ _ _ _ _ _ hmade).append
        (addTask_told hd₁)

/-- **Every component, to any depth,** tells its templates. -/
theorem blueprint_told (target : String) (c : Component) : TellsTemplates P s target c := by
  -- By induction on components: a container adds no template, and a graph tells those of its tasks.
  induction c using Component.nesting with
  | container c container himpl =>
    intro arguments kinds path templates blueprint templates' hyields
    rw [componentBlueprint_container himpl] at hyields ⊢
    obtain ⟨made, -, hyields, hnotes⟩ := Recorded.yields_lift_notes hyields
    obtain ⟨-, rfl⟩ := Recorded.yields_pure_pair hyields
    rw [hnotes]
    exact told_nil _ _
  | graph c g himpl ih =>
    intro arguments kinds path templates blueprint templates' hyields
    rw [componentBlueprint_graph himpl] at hyields ⊢
    obtain ⟨order, -, hyields, hnotes₁⟩ := Recorded.yields_lift_notes hyields
    obtain ⟨scope, -, hyields, hnotes₂⟩ := Recorded.yields_lift_notes hyields
    obtain ⟨d, hrun, hyields, hnotes₃⟩ := Recorded.yields_bind_notes hyields
    obtain ⟨made, -, hyields, hnotes₄⟩ := Recorded.yields_lift_notes hyields
    obtain ⟨-, rfl⟩ := Recorded.yields_pure_pair hyields
    rw [hnotes₁, hnotes₂, hnotes₃, hnotes₄]
    exact (runTasks_told ih hrun).append (told_nil _ _)

/-! ### Whole pipelines -/

/-- The texts of inputs of the pipeline. -/
theorem rootBindings_onlyWarns (c : Component) (texts : Keyed String) (names : List String) :
    (rootBindings c texts names).OnlyWarns := by
  induction names with
  | nil => exact .of_nil rfl
  | cons name rest ih =>
    exact .bind (.of_nil rfl) fun input => .bind (bound_onlyWarns _ _ _ _) fun _ =>
      .bind ih fun _ => .of_nil rfl

/-- The document of a workflow names its templates. -/
theorem namesAt_templates (w : Workflow) :
    w.toValue.namesAt ["spec", "templates"] = asFields (Keyed.keys w.templates) := by
  have hunder : w.toValue.under? ["spec", "templates"] =
      some (.list (w.templates.map Template.toValue)) := rfl
  rw [Value.namesAt, hunder, asFields, Keyed.keys, List.map_map]
  exact List.map_map

/-- The events of a compilation tell the templates of a workflow: the events for templates name
    them in their order, each once, and the last event says how many they are and with which the
    workflow begins. -/
structure Traced (document : Value) (events : List (Keyed Value)) : Prop where
  templates : reports "template allocated" "template" events =
    document.namesAt ["spec", "templates"]
  once : (document.namesAt ["spec", "templates"]).Nodup
  last : ∃ event, events.getLast? = some event ∧
    textAt? event "message" = some "workflow emitted" ∧
    Keyed.find? event "entrypoint" = document.under? ["spec", "entrypoint"] ∧
    Keyed.find? event "templates" =
      some (.int (document.namesAt ["spec", "templates"]).length)

/-- The note with which a compilation ends. -/
def emitted (entrypoint : String) (templates : Keyed Template) : Note :=
  .event "" "INFO" "workflow emitted"
    [("entrypoint", .str entrypoint), ("templates", .int templates.length)]

/-- The last event adds no templates. -/
theorem told_emitted (entrypoint : String) (templates : Registry Template) :
    Told target [emitted entrypoint templates.entries] templates templates :=
  told_event _ _ ⟨by decide, by decide, by simp [Keyed.keys], by simp [Keyed.keys]⟩ (by decide)

/-- **The events of a whole compilation** tell the templates of the workflow. -/
theorem compile_traced {context : Context} {c : Component} {arguments : Keyed Value} {w : Workflow}
    (hyields : (compile context c arguments).Yields P w) (target : String) :
    (∀ note ∈ (compile context c arguments).notes, note.IsOwn) ∧
      Traced w.toValue (eventsOf target (compile context c arguments).notes) := by
  unfold compile at hyields ⊢
  obtain ⟨s, -, hyields, hnotes₁⟩ := Recorded.yields_lift_notes hyields
  obtain ⟨limit, -, hyields, hnotes₂⟩ := Recorded.yields_lift_notes hyields
  dsimp only at hyields hnotes₂
  obtain ⟨⟨blueprint, templates⟩, hmade, hyields, hnotes₃⟩ :=
    Recorded.yields_bind_notes hyields
  obtain ⟨⟨entrypoint, templates'⟩, hadd, hyields, hnotes₄⟩ :=
    Recorded.yields_bind_notes hyields
  obtain ⟨texts, -, hyields, hnotes₅⟩ := Recorded.yields_bind_notes hyields
  obtain ⟨parameters, -, hyields, hnotes₆⟩ := Recorded.yields_bind_notes hyields
  obtain ⟨artifacts, -, hyields, hnotes₇⟩ := Recorded.yields_bind_notes hyields
  obtain ⟨limit', -, hyields, hnotes₈⟩ := Recorded.yields_lift_notes hyields
  obtain ⟨name, -, hyields, hnotes₉⟩ := Recorded.yields_lift_notes hyields
  obtain ⟨given, -, hyields, hnotes₁₀⟩ := Recorded.yields_lift_notes hyields
  obtain ⟨annotations, -, hyields, hnotes₁₁⟩ := Recorded.yields_lift_notes hyields
  obtain ⟨u, -, hyields, hnotes₁₂⟩ := Recorded.yields_bind_notes hyields
  obtain rfl := Recorded.yields_pure.mp hyields
  rw [hnotes₁, hnotes₂, hnotes₃, hnotes₄, hnotes₅, hnotes₆, hnotes₇, hnotes₈,
    hnotes₉, hnotes₁₀, hnotes₁₁, hnotes₁₂]
  -- all notes but the last are told of the templates that come in
  have htold := (blueprint_told target c _ _ _ _ _ _ hmade).append
    ((addTemplate_told hadd).append ((told_warnings (rootTexts_onlyWarns c arguments) _ _).append
      ((told_warnings (rootBindings_onlyWarns c texts blueprint.parameters) _ _).append
        ((told_warnings (rootBindings_onlyWarns c texts blueprint.artifacts) _ _).append
          (told_emitted entrypoint templates')))))
  obtain ⟨added, hkeys, hreports⟩ := htold.names.names
  refine ⟨htold.own, ?_, ?_, (emitted entrypoint templates'.entries).eventFor target, ?_, rfl,
    rfl, ?_⟩
  · rw [namesAt_templates]
    exact hreports.trans (congrArg asFields hkeys.symm)
  · rw [namesAt_templates]
    exact asFields_nodup (htold.names.nodup List.nodup_nil)
  · rw [eventsOf, List.getLast?_map]
    simp only [List.getLast?_append]
    rfl
  · rw [namesAt_templates, asFields, Keyed.keys, List.length_map, List.length_map]
    rfl

end PipelineCompiler.Argo
