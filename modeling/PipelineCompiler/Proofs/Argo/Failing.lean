import PipelineCompiler.Proofs.Argo.Run
import PipelineCompiler.Proofs.Failing

namespace PipelineCompiler.Argo

/-!
# How the steps of a compilation fail

* `failsOnly_addTemplate`, `failsOnly_start`, `failsOnly_parameterFor`, … — the steps that fail
  with no compilation error at all;
* `failsOnly_containerBlueprint`, `failsOnly_bindParameters`, `failsOnly_addTask`, … — the steps
  that fail with some compilation errors only;
* `bindArtifacts_error`, `addTask_error` — the one step that refuses constants, and when it does;
* `binderArgument_error`, `addTask_missing` — the same for arguments that are missing.
-/

variable {s : Settings}

/-! ### Steps without compilation errors -/

section Lenient

variable {p : Failure → Prop} (hp : IsLenient p)

include hp

/-- A directory or a file name that is not there. -/
theorem failsOnly_fileOf (s : Settings) (directory name : String) :
    FailsOnly p (fileOf s directory name) :=
  (failsOnly_text hp s directory).bind fun _ _ =>
    (failsOnly_text hp s "io_file_name").bind fun _ _ => failsOnly_ok _

/-- A setting that conversions need is not there. -/
theorem failsOnly_conversionTemplate (s : Settings) : FailsOnly p (conversionTemplate s) :=
  (failsOnly_fileOf hp s _ _).bind fun _ _ => (failsOnly_fileOf hp s _ _).bind fun _ _ =>
    (failsOnly_value hp s _).bind fun _ _ => failsOnly_ok _

/-- A template that gets no name. -/
theorem failsOnly_addTemplate (s : Settings) (templates : Registry Template)
    {stem : Except Failure String} (hstem : FailsOnly p stem) (path : List String) (t : Template) :
    FailsOnly p (addTemplate s templates stem path t).result := by
  have hchecked : FailsOnly p (s.nameLength.bind fun _ => stem) :=
    FailsOnly.bind (failsOnly_length hp s _) fun _ _ => hstem
  unfold addTemplate
  refine (failsOnly_intern hp templates Template.record hchecked t).bindRecorded fun given _ => ?_
  dsimp only
  split
  · exact failsOnly_ok _
  · exact failsOnly_ok _

/-- Tasks that get no names. -/
theorem failsOnly_start (s : Settings) (path : List String) (kinds : Keyed InputKind)
    (order : List String) : FailsOnly p (Scope.start s path kinds order) := by
  have hreserve : ∀ scope : Scope, FailsOnly p (scope.reserveAll order) := fun scope =>
    failsOnly_foldlM (fun scope id => (FailsOnly.bind (failsOnly_reserve hp _ _)
      fun _ _ => failsOnly_ok _).bind fun _ _ => failsOnly_ok _) order scope
  unfold Scope.start
  split
  · exact hreserve _
  · exact FailsOnly.bind (failsOnly_length hp s _) fun _ _ => hreserve _

/-- An input of the graph that is not there. -/
theorem failsOnly_kindsOf (scope : Scope) (arguments : Keyed Argument) (specs : List InputSpec) :
    FailsOnly p (scope.kindsOf arguments specs) := by
  induction specs with
  | nil => exact failsOnly_ok _
  | cons input rest ih =>
    refine FailsOnly.bind ?_ fun _ _ => ih.bind fun _ _ => failsOnly_ok _
    unfold Scope.kindOf
    split
    · exact failsOnly_ok _
    · exact failsOnly_ok _
    · exact failsOnly_fetch hp _ _
    · exact failsOnly_ok _

/-- A task that is not there. -/
theorem failsOnly_taskArtifact (scope : Scope) (source : TaskOutput) :
    FailsOnly p (scope.taskArtifact source) := (failsOnly_fetch hp _ _).map _

/-- An artifact that cannot be converted. -/
theorem failsOnly_convert (s : Settings) (d : Draft) (source : Reference) (stem : String) :
    FailsOnly p (d.convert s source stem).result := by
  unfold Draft.convert
  refine FailsOnly.bindRecorded (failsOnly_conversionTemplate hp s) fun t _ => ?_
  refine (failsOnly_addTemplate hp s _ (failsOnly_ok _) _ t).bindRecorded fun given _ => ?_
  refine (failsOnly_intern hp _ _ (failsOnly_ok _) _).bindRecorded fun given _ => ?_
  dsimp only
  split
  · exact failsOnly_ok _
  · exact failsOnly_ok _

/-- An input that cannot be bound to a parameter. -/
theorem failsOnly_parameterFor (s : Settings) (d : Draft) (argument : Argument) :
    FailsOnly p (d.parameterFor s argument).result := by
  unfold Draft.parameterFor
  cases argument with
  | literal => exact failsOnly_ok _
  | graphInput input type =>
    refine FailsOnly.bindRecorded (failsOnly_fetch hp _ _) fun kind _ => ?_
    split
    · exact failsOnly_convert hp s _ _ _
    · exact failsOnly_ok _
  | taskOutput source =>
    exact FailsOnly.bindRecorded (failsOnly_taskArtifact hp _ _) fun _ _ =>
      failsOnly_convert hp s _ _ _

/-- An input that cannot be bound to a file. -/
theorem failsOnly_artifactFor {name : String} (hconstant : p (.ofCause (.constantArtifact name)))
    (d : Draft) (argument : Argument) : FailsOnly p (d.artifactFor name argument) := by
  unfold Draft.artifactFor
  cases argument with
  | literal => exact failsOnly_error hconstant
  | graphInput input type =>
    refine (failsOnly_fetch hp _ _).bind fun kind _ => ?_
    split
    · exact failsOnly_error hconstant
    · exact failsOnly_ok _
  | taskOutput source => exact (failsOnly_taskArtifact hp _ _).bind fun _ _ => failsOnly_ok _

/-- Inputs of the pipeline that are given nothing. -/
theorem failsOnly_rootBindings (hmissing : ∀ name, p (.ofCause (.missingArgument name)))
    (c : Component) (texts : Keyed String) (names : List String) :
    FailsOnly p (rootBindings c texts names).result := by
  induction names with
  | nil => exact failsOnly_ok _
  | cons name rest ih =>
    exact FailsOnly.bindRecorded (failsOnly_fetchInput hp _ _) fun input _ =>
      (failsOnly_bound (hmissing _)).bindRecorded fun _ _ => ih.bindRecorded fun _ _ =>
        failsOnly_ok _

/-- A graph whose outputs come from nowhere. -/
theorem failsOnly_graphBlueprint (scope : Scope) (outputValues : List (String × TaskOutput)) :
    FailsOnly p (graphBlueprint scope outputValues) := by
  have houtputs : FailsOnly p (outputsOf scope outputValues) := by
    induction outputValues with
    | nil => exact failsOnly_ok _
    | cons output rest ih =>
      exact (failsOnly_taskArtifact hp scope output.2).bind fun _ _ => ih.bind fun _ _ =>
        failsOnly_ok _
  exact houtputs.bind fun _ _ => failsOnly_ok _

end Lenient

/-! ### Steps with compilation errors -/

section Errors

variable {p : Failure → Prop} (hp : IsLenient p)

include hp

/-- A container that cannot be compiled. -/
theorem failsOnly_containerBlueprint (hcommand : HoldsOfCommandLines p) (s : Settings)
    (c : Component) (container : Container) (arguments : Keyed Argument) :
    FailsOnly p (containerBlueprint s c container arguments) :=
  (failsOnly_commandLine _ hcommand _).bind fun _ _ =>
    (failsOnly_mapM (fun _ => failsOnly_fileOf hp s _ _) _).bind fun _ _ =>
      (failsOnly_mapM (fun _ => failsOnly_fileOf hp s _ _) _).bind fun _ _ => failsOnly_ok _

variable (hmissing : ∀ name, p (.ofCause (.missingArgument name)))

include hmissing

/-- An input without an argument. -/
theorem failsOnly_argument (b : Binder) (name : String) : FailsOnly p (b.argument name).result :=
  FailsOnly.bindRecorded (failsOnly_fetchInput hp _ _) fun _ _ => failsOnly_bound (hmissing _)

/-- Inputs that cannot be bound to parameters. -/
theorem failsOnly_bindParameters (s : Settings) (b : Binder) (names : List String) (d : Draft) :
    FailsOnly p (b.bindParameters s names d).result := by
  induction names generalizing d with
  | nil => exact failsOnly_ok _
  | cons name rest ih =>
    exact (failsOnly_argument hp hmissing b name).bindRecorded fun argument _ =>
      (failsOnly_parameterFor hp s d argument).bindRecorded fun bound _ =>
        (ih bound.2).bindRecorded fun _ _ => failsOnly_ok _

variable (hconstant : ∀ name, p (.ofCause (.constantArtifact name)))

include hconstant

/-- Inputs that cannot be bound to files. -/
theorem failsOnly_bindArtifacts (b : Binder) (names : List String) (d : Draft) :
    FailsOnly p (b.bindArtifacts names d).result := by
  induction names generalizing d with
  | nil => exact failsOnly_ok _
  | cons name rest ih =>
    exact (failsOnly_argument hp hmissing b name).bindRecorded fun argument _ =>
      FailsOnly.bindRecorded (failsOnly_artifactFor hp (hconstant _) d argument) fun bound _ =>
        (ih bound.2).bindRecorded fun _ _ => failsOnly_ok _

/-- A task that cannot be added. -/
theorem failsOnly_addTask (s : Settings) (id : String) (b : Binder) (path : List String)
    (blueprint : Blueprint) (d : Draft) :
    FailsOnly p (addTask s id b path blueprint d).result := by
  unfold addTask
  refine (failsOnly_addTemplate hp s _ (failsOnly_nameOr hp _ _) _ _).bindRecorded fun made _ => ?_
  refine (failsOnly_bindParameters hp hmissing s b _ _).bindRecorded fun bound _ => ?_
  refine (failsOnly_bindArtifacts hp hmissing hconstant b _ _).bindRecorded fun given _ => ?_
  exact FailsOnly.bindRecorded (failsOnly_fetch hp _ _) fun _ _ => failsOnly_ok _

end Errors

/-- An input without an argument is no constant that is passed as a file. -/
theorem isOther_missingArgument (name : String) :
    (Failure.ofCause (.missingArgument name)).IsOther := avoids_compilation fun he => nomatch he

/-- Nor is such a constant an input without an argument. -/
theorem avoids_constantArtifact (name : String) :
    (Failure.ofCause (.constantArtifact name)).Avoids .missingArgument :=
  avoids_compilation fun he => nomatch he

/-! ### Constants that are passed as files -/

/-- An input that cannot be bound to a file, because it is available as a parameter only. -/
theorem artifactFor_error {d : Draft} {name : String} {argument : Argument} {e : Failure}
    (h : d.artifactFor name argument = .error e) (hconstant : ¬ e.IsOther) :
    e = .ofCause (.constantArtifact name) ∧ d.scope.kindOf (some argument) = .ok .parameter := by
  cases argument with
  | literal => exact ⟨(Except.error.inj h).symm, rfl⟩
  | graphInput input type =>
    unfold Draft.artifactFor at h
    rcases bind_eq_error.mp h with h | ⟨kind, hkind, h⟩
    · exact absurd (failsOnly_fetch isLenient_isOther _ _ e h) hconstant
    · split at h
      · exact ⟨(Except.error.inj h).symm, hkind⟩
      · cases h
  | taskOutput source =>
    unfold Draft.artifactFor at h
    rcases bind_eq_error.mp h with h | ⟨reference, -, h⟩
    · exact absurd (failsOnly_taskArtifact isLenient_isOther _ _ e h) hconstant
    · cases h

/-- **Inputs that cannot be bound to files**: one of them is available as a parameter only. -/
theorem bindArtifacts_error {b : Binder} {names : List String} {d : Draft} {e : Failure}
    (h : (b.bindArtifacts names d).result = .error e) (hconstant : ¬ e.IsOther) :
    ∃ name ∈ names, name ∈ b.component.inputNames ∧
      e = .ofCause (.constantArtifact name) ∧
      d.scope.kindOf (some (b.component.argumentFor b.arguments name)) = .ok .parameter ∧
      b.component.checkInput (Keyed.has b.arguments) name = .ok () := by
  induction names generalizing d with
  | nil => cases h
  | cons name rest ih =>
    unfold Binder.bindArtifacts at h
    rcases Recorded.bind_eq_error.mp h with h | ⟨argument, hargument, h⟩
    · exact absurd (failsOnly_argument isLenient_isOther isOther_missingArgument b name e h)
        hconstant
    have hgiven := binderArgument_given (Recorded.yields_of_result hargument)
    obtain ⟨hdeclared, rfl⟩ := binderArgument_spec (Recorded.yields_of_result hargument)
    rcases Recorded.bind_eq_error.mp h with h | ⟨bound, hbound, h⟩
    · obtain ⟨he, hkind⟩ := artifactFor_error h hconstant
      exact ⟨name, List.mem_cons_self, hdeclared, he, hkind, hgiven⟩
    rcases Recorded.bind_eq_error.mp h with h | ⟨others, -, h⟩
    · -- the binding before has changed nothing of what is known
      obtain ⟨other, hother, hdeclared', he, hkind, hgiven'⟩ := ih h
      have hkinds := (artifactFor_steps hbound).grows.kinds
      exact ⟨other, List.mem_cons_of_mem _ hother, hdeclared', he,
        (kindOf_congr hkinds _).symm.trans hkind, hgiven'⟩
    · cases h

/-- **A task that cannot be added**: one of the inputs that its template reads as files is available
    as a parameter only. -/
theorem addTask_error {id : String} {b : Binder} {path : List String} {blueprint : Blueprint}
    {d : Draft} {e : Failure}
    (h : (addTask s id b path blueprint d).result = .error e) (hconstant : ¬ e.IsOther) :
    ∃ name ∈ blueprint.artifacts, name ∈ b.component.inputNames ∧
      e = .ofCause (.constantArtifact name) ∧
      d.scope.kindOf (some (b.component.argumentFor b.arguments name)) = .ok .parameter ∧
      b.component.checkInput (Keyed.has b.arguments) name = .ok () := by
  unfold addTask at h
  -- The steps of adding a task: only the bindings of files can fail like that.
  rcases Recorded.bind_eq_error.mp h with h | ⟨⟨template, templates⟩, htemplate, h⟩
  · exact absurd (failsOnly_addTemplate isLenient_isOther s _
      (failsOnly_nameOr isLenient_isOther _ _) _ _ e h) hconstant
  rcases Recorded.bind_eq_error.mp h with h | ⟨⟨parameters, d₁⟩, hparameters, h⟩
  · exact absurd (failsOnly_bindParameters isLenient_isOther isOther_missingArgument s b _ _ e h)
      hconstant
  rcases Recorded.bind_eq_error.mp h with h | ⟨⟨artifacts, d₂⟩, -, h⟩
  · obtain ⟨name, hname, hdeclared, he, hkind, hgiven⟩ := bindArtifacts_error h hconstant
    have hkinds : d₁.scope.kinds = d.scope.kinds :=
      (bindParameters_run (Recorded.yields_true hparameters)).keeps
        (I := fun d₁ => d₁.scope.kinds = d.scope.kinds)
        (fun _ _ _ _ hbinds h => hbinds.kinds.trans h) rfl
    exact ⟨name, hname, hdeclared, he, (kindOf_congr hkinds _).symm.trans hkind, hgiven⟩
  rcases Recorded.bind_eq_error.mp h with h | ⟨name, -, h⟩
  · exact absurd (failsOnly_fetch isLenient_isOther _ _ e h) hconstant
  · cases h

/-! ### Missing arguments -/

section Missing

variable {b : Binder} {names : List String} {d : Draft} {e : Failure}
  (hmissing : ¬ e.Avoids .missingArgument)

include hmissing

/-- An input without an argument that needs one. -/
theorem binderArgument_error {name : String} (h : (b.argument name).result = .error e) :
    e = .ofCause (.missingArgument name) ∧
      b.component.checkInput (Keyed.has b.arguments) name ≠ .ok () := by
  unfold Binder.argument at h
  rcases Recorded.bind_eq_error.mp h with h | ⟨input, hinput, h⟩
  · exact absurd (failsOnly_fetchInput (isLenient_avoids _) _ _ e h) hmissing
  · obtain ⟨rfl, hfails⟩ := bound_error h
    have hname : input.name = name := input?_name (fetchInput_eq_ok.mp hinput)
    rw [hname] at hfails ⊢
    refine ⟨rfl, ?_⟩
    rw [Component.checkInput, show b.component.fetchInput name = .ok input from hinput]
    exact hfails

/-- One of some inputs that are used as parameters. -/
theorem bindParameters_missing (h : (b.bindParameters s names d).result = .error e) :
    ∃ name ∈ names, e = .ofCause (.missingArgument name) ∧
      b.component.checkInput (Keyed.has b.arguments) name ≠ .ok () := by
  induction names generalizing d with
  | nil => cases h
  | cons name rest ih =>
    unfold Binder.bindParameters at h
    rcases Recorded.bind_eq_error.mp h with h | ⟨argument, -, h⟩
    · exact ⟨name, List.mem_cons_self, binderArgument_error hmissing h⟩
    rcases Recorded.bind_eq_error.mp h with h | ⟨bound, -, h⟩
    · exact absurd (failsOnly_parameterFor (isLenient_avoids _) s d argument e h) hmissing
    rcases Recorded.bind_eq_error.mp h with h | ⟨others, -, h⟩
    · obtain ⟨other, hother, hfails⟩ := ih h
      exact ⟨other, List.mem_cons_of_mem _ hother, hfails⟩
    · cases h

/-- One of some inputs that are used as files. -/
theorem bindArtifacts_missing (h : (b.bindArtifacts names d).result = .error e) :
    ∃ name ∈ names, e = .ofCause (.missingArgument name) ∧
      b.component.checkInput (Keyed.has b.arguments) name ≠ .ok () := by
  induction names generalizing d with
  | nil => cases h
  | cons name rest ih =>
    unfold Binder.bindArtifacts at h
    rcases Recorded.bind_eq_error.mp h with h | ⟨argument, -, h⟩
    · exact ⟨name, List.mem_cons_self, binderArgument_error hmissing h⟩
    rcases Recorded.bind_eq_error.mp h with h | ⟨bound, -, h⟩
    · exact absurd (failsOnly_artifactFor (isLenient_avoids .missingArgument)
        (avoids_constantArtifact _) d argument e h) hmissing
    rcases Recorded.bind_eq_error.mp h with h | ⟨others, -, h⟩
    · obtain ⟨other, hother, hfails⟩ := ih h
      exact ⟨other, List.mem_cons_of_mem _ hother, hfails⟩
    · cases h

/-- **A task that cannot be added without an argument**: its template reads an input that does not
    pass its check. -/
theorem addTask_missing {id : String} {path : List String} {blueprint : Blueprint}
    (h : (addTask s id b path blueprint d).result = .error e) :
    ∃ name ∈ blueprint.parameters ++ blueprint.artifacts,
      e = .ofCause (.missingArgument name) ∧
      b.component.checkInput (Keyed.has b.arguments) name ≠ .ok () := by
  have hlenient := isLenient_avoids .missingArgument
  unfold addTask at h
  -- The steps of adding a task: both kinds of bindings look at the argument, and no other step
  -- does.
  rcases Recorded.bind_eq_error.mp h with h | ⟨⟨template, templates⟩, -, h⟩
  · exact absurd (failsOnly_addTemplate hlenient s _ (failsOnly_nameOr hlenient _ _) _ _ e h)
      hmissing
  rcases Recorded.bind_eq_error.mp h with h | ⟨⟨parameters, d₁⟩, -, h⟩
  · obtain ⟨name, hname, hfails⟩ := bindParameters_missing hmissing h
    exact ⟨name, List.mem_append_left _ hname, hfails⟩
  rcases Recorded.bind_eq_error.mp h with h | ⟨⟨artifacts, d₂⟩, -, h⟩
  · obtain ⟨name, hname, hfails⟩ := bindArtifacts_missing hmissing h
    exact ⟨name, List.mem_append_right _ hname, hfails⟩
  rcases Recorded.bind_eq_error.mp h with h | ⟨name, -, h⟩
  · exact absurd (failsOnly_fetch hlenient _ _ e h) hmissing
  · cases h

end Missing

end PipelineCompiler.Argo
