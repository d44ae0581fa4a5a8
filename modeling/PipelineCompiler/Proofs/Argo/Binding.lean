import PipelineCompiler.Proofs.Argo.Scope
import PipelineCompiler.Proofs.Binding
import PipelineCompiler.Proofs.Component.Flat

namespace PipelineCompiler.Argo

/-!
# What the inputs of a task are bound to

* `Converts` — a task of the scope turns an artifact into a parameter;
* `Binds`, `BindsFile` — what a binding has to do with the argument it was made from;
* `parameterFor_input`, `parameterFor_output` — the ways in which a parameter is bound;
* `convert_spec`, `parameterFor_spec`, `artifactFor_spec` — one binding;
* `bindParameters_spec`, `bindArtifacts_spec` — the bindings of a task.

Every binding is made once and holds as long as the draft grows: `Binds.mono`, `BindsFile.mono`.
-/

variable {P : String → Prop} {s : Settings}

/-! ### Bindings and arguments -/

/-- The outline of the task with a name. -/
def taskOutline? (tasks : Keyed DagTask) (name : String) : Option TaskOutline :=
  (Keyed.find? tasks name).map DagTask.outline

/-- Outlines that are found are still found when tasks were added. -/
theorem taskOutline?_mono {tasks tasks' : Keyed DagTask} (hw : Keyed.Within tasks tasks')
    {name : String} {o : TaskOutline} (h : taskOutline? tasks name = some o) :
    taskOutline? tasks' name = some o := by
  obtain ⟨t, ht, rfl⟩ := Option.map_eq_some_iff.mp h
  rw [taskOutline?, hw _ _ ht]
  rfl

/-- The task with a name turns an artifact into a parameter: its template is a conversion, and
    what it converts is written as the artifact is. -/
structure Converts (d : Draft) (name : String) (source : Reference) : Prop where
  point : HasNoPoint name
  task : ∃ template, taskOutline? d.scope.tasks.entries name
      = some (DagTask.conversion template source).outline ∧
    outline? d.templates template = some (.conversion conversionInput conversionOutput)

/-- What the binding of an input that is used as a parameter has to do with its argument. -/
inductive Binds (d : Draft) : Argument → Reference → Prop where
  | constant (text : String) : Binds d (.literal text) (.constant text)
  | input {name : String} {kind : InputKind} (type : Value)
      (found : Keyed.find? d.scope.kinds name = some kind) (kindNe : kind ≠ .artifact)
      (used : name ∈ d.scope.parameters) :
      Binds d (.graphInput name type) (.parameter (sanitizeIoName name))
  | converted {name conversion : String} (type : Value)
      (found : Keyed.find? d.scope.kinds name = some .artifact)
      (used : name ∈ d.scope.artifacts)
      (converts : Converts d conversion (.artifact (sanitizeIoName name))) :
      Binds d (.graphInput name type) (.taskParameter conversion conversionOutput)
  | output {source : TaskOutput} {task conversion : String}
      (found : Keyed.find? d.scope.taskNames source.task = some task)
      (converts : Converts d conversion (.taskArtifact task (sanitizeIoName source.output))) :
      Binds d (.taskOutput source) (.taskParameter conversion conversionOutput)

/-- What the binding of an input that is used as a file has to do with its argument. -/
inductive BindsFile (d : Draft) : Argument → Reference → Prop where
  | input {name : String} {kind : InputKind} (type : Value)
      (found : Keyed.find? d.scope.kinds name = some kind) (kindNe : kind ≠ .parameter)
      (used : name ∈ d.scope.artifacts) :
      BindsFile d (.graphInput name type) (.artifact (sanitizeIoName name))
  | output {source : TaskOutput} {task : String}
      (found : Keyed.find? d.scope.taskNames source.task = some task) :
      BindsFile d (.taskOutput source) (.taskArtifact task (sanitizeIoName source.output))

/-- A conversion stays one. -/
theorem Converts.mono {d d' : Draft} (hgrows : d.Grows d') {name : String} {source : Reference}
    (h : Converts d name source) : Converts d' name source := by
  obtain ⟨template, htask, htemplate⟩ := h.task
  exact ⟨h.point, template, taskOutline?_mono hgrows.tasks.within htask,
    outline?_mono hgrows.templates.within htemplate⟩

/-- A binding stays what it is. -/
theorem Binds.mono {d d' : Draft} (hgrows : d.Grows d') {argument : Argument}
    {reference : Reference} (h : Binds d argument reference) : Binds d' argument reference := by
  cases h with
  | constant text => exact .constant text
  | input type found kindNe used =>
    exact .input type (hgrows.kinds ▸ found) kindNe (hgrows.parameters _ used)
  | converted type found used converts =>
    exact .converted type (hgrows.kinds ▸ found) (hgrows.artifacts _ used) (converts.mono hgrows)
  | output found converts => exact .output (hgrows.taskNames ▸ found) (converts.mono hgrows)

/-- A binding of a file stays what it is. -/
theorem BindsFile.mono {d d' : Draft} (hgrows : d.Grows d') {argument : Argument}
    {reference : Reference} (h : BindsFile d argument reference) :
    BindsFile d' argument reference := by
  cases h with
  | input type found kindNe used =>
    exact .input type (hgrows.kinds ▸ found) kindNe (hgrows.artifacts _ used)
  | output found => exact .output (hgrows.taskNames ▸ found)

/-! ### One binding -/

variable {d d' : Draft} {done : List String} {pending : List Reference} {reference : Reference}

/-- The file of an input or output has its legal name. -/
theorem fileOf_name {directory name : String} {file : ArtifactFile}
    (h : fileOf s directory name = .ok file) : file.name = sanitizeIoName name := by
  obtain ⟨root, -, h⟩ := bind_eq_ok.mp h
  obtain ⟨leaf, -, h⟩ := bind_eq_ok.mp h
  rw [← pure_eq_ok.mp h]

/-- The outline of the template that converts artifacts. -/
theorem conversionTemplate_outline {t : Template} (h : conversionTemplate s = .ok t) :
    t.outline = .conversion conversionInput conversionOutput := by
  have hin : sanitizeIoName conversionInput = conversionInput := by decide +kernel
  have hout : sanitizeIoName conversionOutput = conversionOutput := by decide +kernel
  obtain ⟨input, hinput, h⟩ := bind_eq_ok.mp h
  obtain ⟨output, houtput, h⟩ := bind_eq_ok.mp h
  obtain ⟨image, -, h⟩ := bind_eq_ok.mp h
  rw [← pure_eq_ok.mp h, Template.outline, fileOf_name hinput, fileOf_name houtput, hin, hout]

/-- **A conversion** is a task of the scope, which may be shared. -/
theorem convert_spec (hsep : Separates P) {source : Reference} {stem : String}
    (h : d.Sound P done (source :: pending))
    (hyields : (d.convert s source stem).Yields P (reference, d')) :
    d'.Sound P done (reference :: pending) ∧ d.Grows d' ∧
      ∃ name, reference = .taskParameter name conversionOutput ∧ Converts d' name source := by
  unfold Draft.convert at hyields
  obtain ⟨t, ht, hyields⟩ := Recorded.yields_bind.mp hyields
  have houtline := conversionTemplate_outline (Recorded.yields_lift.mp ht)
  obtain ⟨⟨template, templates⟩, htemplate, hyields⟩ := Recorded.yields_bind.mp hyields
  have hclosed : t.Closed d.templates.entries := by
    cases t with
    | dag => cases houtline
    | container | conversion => trivial
  obtain ⟨htemplates, hgrowsT, hfound⟩ := addTemplate_spec hsep h.templates hclosed htemplate
  obtain ⟨⟨name, isNew, tasks⟩, hintern, hyields⟩ := Recorded.yields_bind.mp hyields
  have hshared := Registry.intern_shared hsep h.tasks hintern
  dsimp only at hyields
  obtain ⟨rfl, rfl⟩ := Recorded.yields_pure_pair hyields.of_when
  rw [houtline] at hfound
  -- the task fits its template, because a conversion has one input artifact and no parameter
  have hfits : Fits templates.entries (.conversion template source) := by
    obtain ⟨u, hu, huoutline⟩ := Option.map_eq_some_iff.mp hfound
    refine ⟨u, hu, ?_, ?_⟩
    · rw [← Template.outline_parameters, huoutline]
      rfl
    · rw [← Template.outline_artifacts, huoutline]
      rfl
  have hsound := (h.withTemplates htemplates hgrowsT).share hshared hfits (by
    intro r hr
    obtain rfl : r = source := by simpa [DagTask.references, DagTask.parameters,
      DagTask.artifacts] using hr
    exact h.declaredPending r List.mem_cons_self)
  obtain ⟨found, hfind, hsame⟩ := hshared.found
  have htask := taskOutline_of_sameRecord hsame
  have hgrows : d.Grows { templates, scope := { d.scope with tasks } } :=
    (Draft.grows_withTemplates hgrowsT).trans (Draft.grows_withTasks hshared.grows)
  refine ⟨Draft.Sound.cons (hsound.drop ⟨_, Keyed.mem_of_find? hfind, ?_⟩) trivial, hgrows,
    name, rfl, ⟨?_, template, ?_, hfound⟩⟩
  · rw [texts_eq_outline, htask]
    simp [DagTask.outline, bindingTexts, DagTask.parameters, DagTask.artifacts, Keyed.values]
  · exact hasNoPoint_of_legal (hshared.sound.legal name (hshared.sound.used_of_kept hshared.kept))
  · show taskOutline? tasks.entries name = _
    rw [taskOutline?, hfind, Option.map_some, htask]

/-- What is declared stays declared. -/
theorem Declares.mono (hgrows : d.Grows d') {r : Reference} (h : d.scope.Declares r) :
    d'.scope.Declares r := by
  have hmap : ∀ {xs ys : List String}, (∀ x ∈ xs, x ∈ ys) → ∀ {name : String},
      name ∈ xs.map sanitizeIoName → name ∈ ys.map sanitizeIoName := by
    intro xs ys hsub name hname
    obtain ⟨x, hx, rfl⟩ := List.mem_map.mp hname
    exact List.mem_map_of_mem (hsub x hx)
  cases r with
  | parameter name => exact hmap hgrows.parameters h
  | artifact name => exact hmap hgrows.artifacts h
  | constant | taskParameter | taskArtifact => trivial

/-- The draft after an input was used as a parameter. -/
theorem grows_useParameter (d : Draft) (input : String) :
    d.Grows { d with scope := (d.scope.useParameter input).2 } :=
  { Draft.Grows.refl d with parameters := fun _ hx => mem_insertNew.mpr (.inl hx) }

/-- The draft after an input was used as a file. -/
theorem grows_useArtifact (d : Draft) (input : String) :
    d.Grows { d with scope := (d.scope.useArtifact input).2 } :=
  { Draft.Grows.refl d with artifacts := fun _ hx => mem_insertNew.mpr (.inl hx) }

/-- The binding of an input that is used as a parameter. -/
theorem useParameter_sound (h : d.Sound P done pending) (input : String) :
    Draft.Sound P { d with scope := (d.scope.useParameter input).2 } done
      (.parameter (sanitizeIoName input) :: pending) := by
  have hmem : input ∈ (d.scope.useParameter input).2.parameters :=
    mem_insertNew.mpr (.inr rfl)
  -- Only what was pending and the inputs in use change: the new reference is declared by the input.
  refine { h with
    declaredPending := fun r hr => ?_
    declared := fun entry hentry r hr => Declares.mono (grows_useParameter d input)
      (h.declared entry hentry r hr)
    parametersUsed := fun x hx => ?_
    artifactsUsed := fun x hx => (h.artifactsUsed x hx).mono
      (fun _ hr => List.mem_cons_of_mem _ hr) fun _ hentry => hentry }
  · rcases List.mem_cons.mp hr with rfl | hr
    · exact List.mem_map_of_mem hmem
    · exact Declares.mono (grows_useParameter d input) (h.declaredPending r hr)
  · rcases mem_insertNew.mp hx with hx | rfl
    · exact (h.parametersUsed x hx).mono (fun _ hr => List.mem_cons_of_mem _ hr)
        fun _ hentry => hentry
    · exact .inl ⟨_, List.mem_cons_self, rfl⟩

/-- The binding of an input that is used as a file. -/
theorem useArtifact_sound (h : d.Sound P done pending) (input : String) :
    Draft.Sound P { d with scope := (d.scope.useArtifact input).2 } done
      (.artifact (sanitizeIoName input) :: pending) := by
  have hmem : input ∈ (d.scope.useArtifact input).2.artifacts :=
    mem_insertNew.mpr (.inr rfl)
  -- A use of an input adds a declaration and takes none away, so everything but the two lists below
  -- is kept as it is.
  refine { h with
    declaredPending := fun r hr => ?_
    declared := fun entry hentry r hr => Declares.mono (grows_useArtifact d input)
      (h.declared entry hentry r hr)
    parametersUsed := fun x hx => (h.parametersUsed x hx).mono
      (fun _ hr => List.mem_cons_of_mem _ hr) fun _ hentry => hentry
    artifactsUsed := fun x hx => ?_ }
  · rcases List.mem_cons.mp hr with rfl | hr
    · exact List.mem_map_of_mem hmem
    · exact Declares.mono (grows_useArtifact d input) (h.declaredPending r hr)
  · rcases mem_insertNew.mp hx with hx | rfl
    · exact (h.artifactsUsed x hx).mono (fun _ hr => List.mem_cons_of_mem _ hr)
        fun _ hentry => hentry
    · exact .inl ⟨_, List.mem_cons_self, rfl⟩

/-- A reference to the output of a task has the name of that task. -/
theorem taskArtifact_eq_ok {scope : Scope} {source : TaskOutput} {r : Reference} :
    scope.taskArtifact source = .ok r ↔ ∃ task,
      Keyed.find? scope.taskNames source.task = some task ∧
        r = .taskArtifact task (sanitizeIoName source.output) := by
  unfold Scope.taskArtifact
  rw [map_eq_ok]
  constructor
  · rintro ⟨task, htask, rfl⟩
    exact ⟨task, fetch_eq_ok.mp htask, rfl⟩
  · rintro ⟨task, htask, rfl⟩
    exact ⟨task, fetch_eq_ok.mpr htask, rfl⟩

/-- An input of the graph that is used as a parameter is one already, or an artifact that is
    converted. -/
theorem parameterFor_input {input : String} {type : Value}
    (hyields : (d.parameterFor s (.graphInput input type)).Yields P (reference, d')) :
    ∃ kind, Keyed.find? d.scope.kinds input = some kind ∧
      (kind = .artifact ∧ (Draft.convert s { d with scope := (d.scope.useArtifact input).2 }
          (.artifact (sanitizeIoName input)) s!"convert-{input}").Yields P (reference, d') ∨
        kind ≠ .artifact ∧ reference = .parameter (sanitizeIoName input) ∧
          d' = { d with scope := (d.scope.useParameter input).2 }) := by
  unfold Draft.parameterFor at hyields
  obtain ⟨kind, hkind, hyields⟩ := Recorded.yields_bind.mp hyields
  refine ⟨kind, fetch_eq_ok.mp (Recorded.yields_lift.mp hkind), ?_⟩
  split at hyields
  next => exact .inl ⟨rfl, hyields⟩
  next hne =>
    obtain ⟨rfl, rfl⟩ := Recorded.yields_pure_pair hyields
    exact .inr ⟨fun he => hne he, rfl, rfl⟩

/-- An output of a task that is used as a parameter is converted. -/
theorem parameterFor_output {source : TaskOutput}
    (hyields : (d.parameterFor s (.taskOutput source)).Yields P (reference, d')) :
    ∃ task, Keyed.find? d.scope.taskNames source.task = some task ∧
      (d.convert s (.taskArtifact task (sanitizeIoName source.output))
        s!"convert-{source.task}-{source.output}").Yields P (reference, d') := by
  unfold Draft.parameterFor at hyields
  obtain ⟨r, hr, hyields⟩ := Recorded.yields_bind.mp hyields
  obtain ⟨task, htask, rfl⟩ := taskArtifact_eq_ok.mp (Recorded.yields_lift.mp hr)
  exact ⟨task, htask, hyields⟩

/-- **What an input that is used as a parameter is bound to.** -/
theorem parameterFor_spec (hsep : Separates P) {argument : Argument}
    (h : d.Sound P done pending)
    (hyields : (d.parameterFor s argument).Yields P (reference, d')) :
    d'.Sound P done (reference :: pending) ∧ d.Grows d' ∧ Binds d' argument reference := by
  cases argument with
  | literal text =>
    obtain ⟨rfl, rfl⟩ := Recorded.yields_pure_pair hyields
    exact ⟨h.cons trivial, .refl d, .constant text⟩
  | graphInput input type =>
    obtain ⟨kind, hfind, ⟨rfl, hyields⟩ | ⟨hne, rfl, rfl⟩⟩ := parameterFor_input hyields
    -- an artifact is converted, and the conversion refers to the input
    · obtain ⟨hsound, hgrows, name, rfl, hconverts⟩ :=
        convert_spec hsep (useArtifact_sound h input) hyields
      have hgrows' := (grows_useArtifact d input).trans hgrows
      exact ⟨hsound, hgrows', .converted type (hgrows'.kinds ▸ hfind)
        (hgrows.artifacts _ (mem_insertNew.mpr (.inr rfl))) hconverts⟩
    · exact ⟨useParameter_sound h input, grows_useParameter d input,
        .input type hfind hne (mem_insertNew.mpr (.inr rfl))⟩
  | taskOutput source =>
    obtain ⟨task, htask, hyields⟩ := parameterFor_output hyields
    have hpending : d.Sound P done
        (.taskArtifact task (sanitizeIoName source.output) :: pending) := h.cons trivial
    obtain ⟨hsound, hgrows, name, rfl, hconverts⟩ := convert_spec hsep hpending hyields
    exact ⟨hsound, hgrows, .output (hgrows.taskNames ▸ htask) hconverts⟩

/-- **What an input that is used as a file is bound to.** -/
theorem artifactFor_spec {argument : Argument} {inputName : String}
    (h : d.Sound P done pending)
    (hok : d.artifactFor inputName argument = .ok (reference, d')) :
    d'.Sound P done (reference :: pending) ∧ d.Grows d' ∧ BindsFile d' argument reference := by
  -- A constant is refused, an input has to be available as a file, and an output is one.
  cases argument with
  | literal text => cases hok
  | graphInput input type =>
    unfold Draft.artifactFor at hok
    obtain ⟨kind, hkind, hok⟩ := bind_eq_ok.mp hok
    have hfind := fetch_eq_ok.mp hkind
    split at hok
    next => cases hok
    next hne =>
      obtain ⟨rfl, rfl⟩ := Prod.mk.inj (pure_eq_ok.mp hok)
      exact ⟨useArtifact_sound h input, grows_useArtifact d input,
        .input type hfind (fun he => hne he) (mem_insertNew.mpr (.inr rfl))⟩
  | taskOutput source =>
    unfold Draft.artifactFor at hok
    obtain ⟨r, hr, hok⟩ := bind_eq_ok.mp hok
    obtain ⟨rfl, rfl⟩ := Prod.mk.inj (pure_eq_ok.mp hok)
    obtain ⟨task, htask, rfl⟩ := taskArtifact_eq_ok.mp hr
    exact ⟨h.cons trivial, .refl d, .output htask⟩

/-! ### The bindings of a task -/

/-- Bindings of inputs under their legal names, each with something that holds of its reference
    and of the argument that counts for its input. -/
def BoundBy (b : Binder) (holds : Argument → Reference → Prop) (names : List String)
    (bindings : List (String × Reference)) : Prop :=
  List.Forall₂ (fun name binding => name ∈ b.component.inputNames ∧
    binding.1 = sanitizeIoName name ∧
    holds (b.component.argumentFor b.arguments name) binding.2) names bindings

/-- Bindings have the legal names of their inputs. -/
theorem BoundBy.names {b : Binder} {holds : Argument → Reference → Prop} {names : List String}
    {bindings : List (String × Reference)} (h : BoundBy b holds names bindings) :
    bindings.map (·.1) = names.map sanitizeIoName := by
  induction h with
  | nil => rfl
  | cons hbinding _ ih => rw [List.map_cons, List.map_cons, hbinding.2.1, ih]

/-- The argument of an input is the one that counts. -/
theorem binderArgument_spec {b : Binder} {name : String} {a : Argument}
    (h : (b.argument name).Yields P a) :
    name ∈ b.component.inputNames ∧ a = b.component.argumentFor b.arguments name := by
  unfold Binder.argument at h
  obtain ⟨input, hinput, h⟩ := Recorded.yields_bind.mp h
  have hfound := fetchInput_eq_ok.mp (Recorded.yields_lift.mp hinput)
  exact ⟨input?_mem hfound, argument_spec hfound h⟩

/-- An input with an argument passes its check. -/
theorem binderArgument_given {b : Binder} {name : String} {a : Argument}
    (h : (b.argument name).Yields P a) :
    b.component.checkInput (Keyed.has b.arguments) name = .ok () := by
  unfold Binder.argument at h
  obtain ⟨input, hinput, h⟩ := Recorded.yields_bind.mp h
  exact checkInput_of_bound (Recorded.yields_lift.mp hinput) h

/-- **The bindings of inputs that are used as parameters.**  The references that are pending are
    those of the bindings, in any order. -/
theorem bindParameters_spec (hsep : Separates P) {b : Binder} {names : List String}
    {bindings : List (String × Reference)} (h : d.Sound P done pending)
    (hyields : (b.bindParameters s names d).Yields P (bindings, d')) :
    d'.Sound P done ((bindings.map (·.2)).reverse ++ pending) ∧ d.Grows d' ∧
      BoundBy b (Binds d') names bindings := by
  -- By induction on the names.  What the first binding refers to stays declared while the others
  -- are made.
  induction names generalizing d d' pending bindings with
  | nil =>
    obtain ⟨rfl, rfl⟩ := Recorded.yields_pure_pair hyields
    exact ⟨h, .refl d, .nil⟩
  | cons name rest ih =>
    unfold Binder.bindParameters at hyields
    obtain ⟨argument, hargument, hyields⟩ := Recorded.yields_bind.mp hyields
    obtain ⟨hdeclared, rfl⟩ := binderArgument_spec hargument
    obtain ⟨⟨r, d₁⟩, hparameter, hyields⟩ := Recorded.yields_bind.mp hyields
    obtain ⟨hsound, hgrows, hbinds⟩ := parameterFor_spec hsep h hparameter
    obtain ⟨⟨others, d₂⟩, hrest, hyields⟩ := Recorded.yields_bind.mp hyields
    obtain ⟨hsound', hgrows', hothers⟩ := ih hsound hrest
    obtain ⟨rfl, rfl⟩ := Recorded.yields_pure_pair hyields
    refine ⟨?_, hgrows.trans hgrows', .cons ⟨hdeclared, rfl, hbinds.mono hgrows'⟩ hothers⟩
    simpa using hsound'

/-- **The bindings of inputs that are used as files.** -/
theorem bindArtifacts_spec {b : Binder} {names : List String}
    {bindings : List (String × Reference)} (h : d.Sound P done pending)
    (hyields : (b.bindArtifacts names d).Yields P (bindings, d')) :
    d'.Sound P done ((bindings.map (·.2)).reverse ++ pending) ∧ d.Grows d' ∧
      BoundBy b (BindsFile d') names bindings := by
  -- By induction on the inputs; what is bound first is pending while the others are.
  induction names generalizing d d' pending bindings with
  | nil =>
    obtain ⟨rfl, rfl⟩ := Recorded.yields_pure_pair hyields
    exact ⟨h, .refl d, .nil⟩
  | cons name rest ih =>
    unfold Binder.bindArtifacts at hyields
    obtain ⟨argument, hargument, hyields⟩ := Recorded.yields_bind.mp hyields
    obtain ⟨hdeclared, rfl⟩ := binderArgument_spec hargument
    obtain ⟨⟨r, d₁⟩, hartifact, hyields⟩ := Recorded.yields_bind.mp hyields
    obtain ⟨hsound, hgrows, hbinds⟩ := artifactFor_spec h (Recorded.yields_lift.mp hartifact)
    obtain ⟨⟨others, d₂⟩, hrest, hyields⟩ := Recorded.yields_bind.mp hyields
    obtain ⟨hsound', hgrows', hothers⟩ := ih hsound hrest
    obtain ⟨rfl, rfl⟩ := Recorded.yields_pure_pair hyields
    refine ⟨?_, hgrows.trans hgrows', .cons ⟨hdeclared, rfl, hbinds.mono hgrows'⟩ hothers⟩
    simpa using hsound'

end PipelineCompiler.Argo
