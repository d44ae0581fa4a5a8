import PipelineCompiler.Proofs.Binding
import PipelineCompiler.Proofs.Vertex.Draft
import PipelineCompiler.Vertex.Compile

namespace PipelineCompiler.Vertex

/-!
# What the inputs of a task are bound to

* `Binds`, `BindsFile` — what a binding has to do with the argument it was made from;
* `addParts_spec` — an executor and a component that are added one after the other;
* `convert_spec`, `parameterFor_spec`, `artifactFor_spec` — one binding;
* `bindParameters_spec`, `bindArtifacts_spec` — the bindings of a task.
-/

variable {P : String → Prop} {s : Settings}

/-! ### Bindings and arguments -/

/-- What an input parameter of a declared type is bound to: a literal is a constant, of the type if
    it can be read as one, and an input of the pipeline is that input. -/
inductive Binds (type : Value) : Argument → ParameterSource → Prop where
  | constant (text : String) :
      Binds type (.literal text) (.constant (Constant.readOr text (PrimitiveType.ofType type)).1)
  | input (name : String) (declared : Value) :
      Binds type (.graphInput name declared) (.pipelineInput name)

/-- What an input artifact is bound to.  Literals and inputs of the pipeline are made artifacts
    of. -/
inductive BindsFile (s : Settings) (p : Parts) (names : Keyed String) :
    Argument → ArtifactSource → Prop where
  | constant (text : String) {name : String}
      (made : MadeFrom s p name (.constant (.string text))) :
      BindsFile s p names (.literal text) (.taskOutput name conversionOutput)
  | input {input name : String} (declared : Value)
      (made : MadeFrom s p name (.pipelineInput input)) :
      BindsFile s p names (.graphInput input declared) (.taskOutput name conversionOutput)
  | output {source : TaskOutput} {task : String}
      (found : Keyed.find? names source.task = some task) :
      BindsFile s p names (.taskOutput source) (.taskOutput task source.output)

/-- A binding stays what it is. -/
theorem BindsFile.mono {p p' : Parts} (hw : p.Within p') {names : Keyed String}
    {argument : Argument} {source : ArtifactSource} (h : BindsFile s p names argument source) :
    BindsFile s p' names argument source := by
  cases h with
  | constant text made => exact .constant text (made.mono hw)
  | input declared made => exact .input declared (made.mono hw)
  | output found => exact .output found

/-- The declared type of an input; there is none for inputs that are not declared. -/
def typeOf (c : Component) (name : String) : Value :=
  ((c.input? name).map InputSpec.type).getD .null

/-- The types of inputs under their names. -/
def declaredTypes (c : Component) (names : List String) : Keyed PrimitiveType :=
  names.map fun name => (name, PrimitiveType.ofType (typeOf c name))

/-- These are listed for inputs that are declared. -/
theorem typesOf_spec {c : Component} {names : List String} {types : Keyed PrimitiveType}
    (h : typesOf c names = .ok types) : types = declaredTypes c names := by
  induction names generalizing types with
  | nil => exact (Except.ok.inj h).symm
  | cons name rest ih =>
    unfold typesOf at h
    obtain ⟨input, hinput, h⟩ := bind_eq_ok.mp h
    obtain ⟨others, hothers, h⟩ := bind_eq_ok.mp h
    obtain rfl := pure_eq_ok.mp h
    rw [ih hothers, declaredTypes, declaredTypes, List.map_cons, typeOf,
      fetchInput_eq_ok.mp hinput]
    rfl

/-- The names of inputs with their types. -/
theorem keys_declaredTypes (c : Component) (names : List String) :
    Keyed.keys (declaredTypes c names) = names := by
  simp [Keyed.keys, declaredTypes, Function.comp_def]

/-- Bindings of inputs under their names, each with something that holds of its source and of the
    argument that counts for its input. -/
def BoundBy {α : Type} (c : Component) (arguments : Keyed Argument)
    (holds : String → Argument → α → Prop) (names : List String) (bindings : Keyed α) :
    Prop :=
  List.Forall₂ (fun name binding =>
    binding.1 = name ∧ holds name (c.argumentFor arguments name) binding.2) names bindings

namespace BoundBy

variable {α : Type} {c : Component} {arguments : Keyed Argument}
  {holds holds' : String → Argument → α → Prop} {names : List String} {bindings : Keyed α}

/-- Bindings have the names of their inputs. -/
theorem keys (h : BoundBy c arguments holds names bindings) : Keyed.keys bindings = names := by
  induction h with
  | nil => rfl
  | cons hbinding _ ih =>
    rw [← hbinding.1, ← ih]
    rfl

/-- What holds of bindings may be replaced by something weaker. -/
theorem imp
    (himp : ∀ name argument source, holds name argument source → holds' name argument source)
    (h : BoundBy c arguments holds names bindings) : BoundBy c arguments holds' names bindings :=
  List.Forall₂.imp (fun _ _ hbinding => ⟨hbinding.1, himp _ _ _ hbinding.2⟩) h

/-- The binding of an input is found under its name. -/
theorem find? (h : BoundBy c arguments holds names bindings) {name : String}
    (hname : name ∈ names) : ∃ source, Keyed.find? bindings name = some source ∧
      holds name (c.argumentFor arguments name) source := by
  induction h with
  | nil => cases hname
  | @cons other binding names bindings hbinding hrest ih =>
    obtain ⟨k, source⟩ := binding
    obtain ⟨rfl, hholds⟩ := hbinding
    by_cases hsame : k = name
    · subst hsame
      exact ⟨source, by simp [Keyed.find?], hholds⟩
    · rw [Keyed.find?, if_neg hsame]
      exact ih ((List.mem_cons.mp hname).resolve_left (Ne.symm hsame))

end BoundBy

/-! ### Parts that are added -/

variable {d d' : Draft} {done pending inputs : List String}

/-- An executor that is added, or shared. -/
theorem addExecutor_spec (hsep : Separates P) (h : d.executors.Sound P executorDocument)
    {stem : Except Failure String} {launch : Launch} {name : String}
    (hyields : (d.addExecutor s stem launch).Yields P (name, d')) :
    ∃ executors, d' = { d with executors } ∧
      Registry.Shared P executorDocument d.executors launch name executors := by
  unfold Draft.addExecutor at hyields
  obtain ⟨⟨given, isNew, executors⟩, hintern, hyields⟩ := Recorded.yields_bind.mp hyields
  obtain ⟨rfl, rfl⟩ := Recorded.yields_pure_pair hyields
  exact ⟨executors, rfl, Registry.intern_shared hsep h hintern⟩

/-- A component that is added, or shared. -/
theorem addComponent_spec (hsep : Separates P) (h : d.components.Sound P ComponentEntry.toValue)
    {stem : Except Failure String} {place : String} {entry : ComponentEntry} {name : String}
    (hyields : (d.addComponent s stem place entry).Yields P (name, d')) :
    ∃ components, d' = { d with components } ∧
      Registry.Shared P ComponentEntry.toValue d.components entry name components := by
  unfold Draft.addComponent at hyields
  obtain ⟨⟨given, isNew, components⟩, hintern, hyields⟩ := Recorded.yields_bind.mp hyields
  dsimp only at hyields
  obtain ⟨rfl, rfl⟩ := Recorded.yields_pure_pair hyields.of_when
  exact ⟨components, rfl, Registry.intern_shared hsep h hintern⟩

/-- **A conversion** is a task of the job, which may be shared. -/
theorem convert_spec (hsep : Separates P) (h : d.Sound P done pending inputs)
    {source : ParameterSource} (hsource : source.IsText)
    (hrecorded : ∀ input, source = .pipelineInput input → input ∈ d.parameters)
    {stem place : String} {artifact : ArtifactSource}
    (hyields : (d.convert s source stem place).Yields P (artifact, d')) :
    d'.Sound P done pending inputs ∧ d.Grows d' ∧
      ∃ name, artifact = .taskOutput name conversionOutput ∧
        MadeFrom s d'.parts name source := by
  unfold Draft.convert at hyields
  obtain ⟨launch, hlaunch, hyields⟩ := Recorded.yields_bind.mp hyields
  have hlaunch := Recorded.yields_lift.mp hlaunch
  obtain ⟨⟨executor, d₁⟩, hadd, hyields⟩ := Recorded.yields_bind.mp hyields
  obtain ⟨executors, rfl, hexecutor⟩ := addExecutor_spec hsep h.executors hadd
  obtain ⟨⟨component, d₂⟩, hadd', hyields⟩ := Recorded.yields_bind.mp hyields
  obtain ⟨components, rfl, hcomponent⟩ :=
    addComponent_spec hsep (d := { d with executors }) h.components hadd'
  obtain ⟨caching, -, hyields⟩ := Recorded.yields_bind.mp hyields
  obtain ⟨⟨name, isNew, tasks⟩, hintern, hyields⟩ := Recorded.yields_bind.mp hyields
  dsimp only at hyields
  obtain ⟨rfl, rfl⟩ := Recorded.yields_pure_pair hyields.of_when
  obtain ⟨hparts, hgrows⟩ := h.withComponent hexecutor hcomponent rfl fun found hsame => by
    rw [conversion_of_sameRecord hsame]
    rfl
  -- the component may be shared, but only with that of another conversion
  obtain ⟨found, hfound, hsame⟩ := hcomponent.found
  obtain rfl := conversion_of_sameRecord hsame
  have hshared := Registry.intern_shared hsep h.tasks hintern
  have hfits : Fits components.entries (.conversion component source caching) :=
    ⟨_, hfound, fun _ => .rfl, fun _ => .rfl⟩
  obtain ⟨hsound, caching', hfind⟩ := hparts.share hshared hsource hfits hrecorded
  obtain ⟨launch', hlaunch', hsame'⟩ := hexecutor.found
  exact ⟨hsound, hgrows.trans (Draft.grows_withTasks hshared.grows), name, rfl,
    component, executor, launch', launch, caching', hfind, hfound, hlaunch', hlaunch, hsame'⟩

/-! ### One binding -/

/-- **What an input parameter is bound to.**  An input of the pipeline is recorded, and waits for
    the task. -/
theorem parameterFor_spec {type : Value} {place : String} {argument : Argument}
    {source : ParameterSource} (h : d.Sound P done pending inputs)
    (hargument : ∀ output, argument ≠ .taskOutput output)
    (hyields : (d.parameterFor type place argument).Yields P (source, d')) :
    d'.Sound P done pending (source.pipelineInput?.toList ++ inputs) ∧ d.Grows d' ∧
      Binds type argument source ∧
      ∀ input, source.pipelineInput? = some input → input ∈ d'.parameters := by
  -- A constant needs nothing, an input is recorded, and outputs are excluded here.
  cases argument with
  | literal text =>
    unfold Draft.parameterFor at hyields
    dsimp only at hyields
    obtain ⟨rfl, rfl⟩ := Recorded.yields_pure_pair hyields.of_when
    exact ⟨h, .refl d, .constant text, fun _ hx => nomatch hx⟩
  | graphInput input declared =>
    obtain ⟨rfl, rfl⟩ := Recorded.yields_pure_pair hyields
    refine ⟨h.useInput input, Draft.grows_useInput d input,
      .input input declared, fun x hx => ?_⟩
    obtain rfl := Option.some.inj hx
    exact mem_insertNew.mpr (.inr rfl)
  | taskOutput output => exact absurd rfl (hargument output)

/-- **What an input artifact is bound to.** -/
theorem artifactFor_spec (hsep : Separates P) {parameters : List String} {place : String}
    {argument : Argument} {source : ArtifactSource} (h : d.Sound P done pending inputs)
    (hargument : ∀ input declared, argument = .graphInput input declared → input ∈ parameters)
    (hyields : (d.artifactFor s parameters place argument).Yields P (source, d')) :
    d'.Sound P done pending inputs ∧ d.Grows d' ∧
      BindsFile s d'.parts d'.taskNames argument source := by
  cases argument with
  | literal text =>
    have htext : (ParameterSource.constant (.string text)).IsText := trivial
    obtain ⟨hsound, hgrows, name, rfl, hmade⟩ := convert_spec hsep h htext (by simp) hyields
    exact ⟨hsound, hgrows, .constant text hmade⟩
  | graphInput input declared =>
    unfold Draft.artifactFor at hyields
    dsimp only at hyields
    rw [if_pos (hargument input declared rfl)] at hyields
    have htext : (ParameterSource.pipelineInput input).IsText := trivial
    have hrecorded : ∀ x, ParameterSource.pipelineInput input = .pipelineInput x →
        x ∈ insertNew d.parameters input := by
      intro x hx
      injection hx with hx
      exact mem_insertNew.mpr (.inr hx.symm)
    obtain ⟨hsound, hgrows, name, rfl, hmade⟩ :=
      convert_spec hsep (h.useInput input) htext hrecorded hyields
    -- the conversion is bound to the input, which does not wait any more
    have hsettled : d'.Sound P done pending inputs := by
      refine hsound.settle (fun _ hn => .inl hn) fun n hn => ?_
      rcases List.mem_cons.mp hn with rfl | hn
      · obtain ⟨component, executor, launch, conversion, caching, hfind, -⟩ := hmade
        exact .inr ⟨_, Keyed.mem_of_find? hfind, List.mem_singleton.mpr rfl⟩
      · exact .inl hn
    exact ⟨hsettled, (Draft.grows_useInput d input).trans hgrows, .input declared hmade⟩
  | taskOutput output =>
    unfold Draft.artifactFor at hyields
    obtain ⟨task, htask, hyields⟩ := Recorded.yields_bind.mp hyields
    have hfind := fetch_eq_ok.mp (Recorded.yields_lift.mp htask)
    obtain ⟨rfl, rfl⟩ := Recorded.yields_pure_pair hyields
    exact ⟨h, .refl d, .output hfind⟩

/-! ### The bindings of a task -/

variable {b : Binder} {names : List String}

/-- **The bindings of input parameters.** -/
theorem bindParameters_spec {bindings : Keyed ParameterSource}
    (h : d.Sound P done pending inputs)
    (hnames : ∀ name ∈ names, ∀ output,
      b.component.argumentFor b.arguments name ≠ .taskOutput output)
    (hyields : (b.bindParameters names d).Yields P (bindings, d')) :
    d'.Sound P done pending (bindings.filterMap (·.2.pipelineInput?) ++ inputs) ∧ d.Grows d' ∧
      BoundBy b.component b.arguments (fun name => Binds (typeOf b.component name)) names
        bindings ∧
      ∀ input ∈ bindings.filterMap (·.2.pipelineInput?), input ∈ d'.parameters := by
  induction names generalizing d d' inputs bindings with
  | nil =>
    obtain ⟨rfl, rfl⟩ := Recorded.yields_pure_pair hyields
    exact ⟨h, .refl d, .nil, fun _ hx => nomatch hx⟩
  | cons name rest ih =>
    unfold Binder.bindParameters at hyields
    obtain ⟨input, hinput, hyields⟩ := Recorded.yields_bind.mp hyields
    have hinput := fetchInput_eq_ok.mp (Recorded.yields_lift.mp hinput)
    obtain ⟨argument, hargument, hyields⟩ := Recorded.yields_bind.mp hyields
    obtain rfl := argument_spec hinput hargument
    obtain ⟨⟨source, d₁⟩, hsource, hyields⟩ := Recorded.yields_bind.mp hyields
    obtain ⟨hsound, hgrows, hbinds, hrecorded⟩ :=
      parameterFor_spec h (hnames name List.mem_cons_self) hsource
    obtain ⟨⟨others, d₂⟩, hrest, hyields⟩ := Recorded.yields_bind.mp hyields
    obtain ⟨hsound', hgrows', hothers, hrecorded'⟩ :=
      ih hsound (fun n hn => hnames n (List.mem_cons_of_mem _ hn)) hrest
    obtain ⟨rfl, rfl⟩ := Recorded.yields_pure_pair hyields
    -- an input waits when this parameter or one of the others is bound to it
    have hwaiting : ∀ x, x ∈ List.filterMap (fun entry => entry.2.pipelineInput?)
        ((name, source) :: others) ↔ source.pipelineInput? = some x ∨
          x ∈ others.filterMap (·.2.pipelineInput?) := by
      intro x
      rw [List.mem_filterMap]
      simp [List.mem_filterMap]
    have htype : input.type = typeOf b.component name := by
      rw [typeOf, hinput]
      rfl
    rw [htype] at hbinds
    refine ⟨hsound'.settle (fun _ hn => .inl hn) fun x hx => .inl ?_, hgrows.trans hgrows',
      .cons ⟨rfl, hbinds⟩ hothers, fun x hx => ?_⟩
    · rw [List.mem_append, hwaiting]
      rcases List.mem_append.mp hx with hx | hx
      · exact .inl (.inr hx)
      · rcases List.mem_append.mp hx with hx | hx
        · exact .inl (.inl (Option.mem_toList.mp hx))
        · exact .inr hx
    · rcases (hwaiting x).mp hx with hx | hx
      · exact hgrows'.parameters x (hrecorded x hx)
      · exact hrecorded' x hx

/-- **The bindings of input artifacts.** -/
theorem bindArtifacts_spec (hsep : Separates P) {bindings : Keyed ArtifactSource}
    (h : d.Sound P done pending inputs)
    (hnames : ∀ name ∈ names, ∀ input declared,
      b.component.argumentFor b.arguments name = .graphInput input declared →
        input ∈ b.pipelineParameters)
    (hyields : (b.bindArtifacts s names d).Yields P (bindings, d')) :
    d'.Sound P done pending inputs ∧ d.Grows d' ∧
      BoundBy b.component b.arguments (fun _ => BindsFile s d'.parts d'.taskNames) names
        bindings := by
  -- By induction on the names.  Bindings that were made before refer to parts that are still there
  -- afterwards.
  induction names generalizing d d' bindings with
  | nil =>
    obtain ⟨rfl, rfl⟩ := Recorded.yields_pure_pair hyields
    exact ⟨h, .refl d, .nil⟩
  | cons name rest ih =>
    unfold Binder.bindArtifacts at hyields
    obtain ⟨input, hinput, hyields⟩ := Recorded.yields_bind.mp hyields
    have hinput := fetchInput_eq_ok.mp (Recorded.yields_lift.mp hinput)
    obtain ⟨argument, hargument, hyields⟩ := Recorded.yields_bind.mp hyields
    obtain rfl := argument_spec hinput hargument
    obtain ⟨⟨source, d₁⟩, hsource, hyields⟩ := Recorded.yields_bind.mp hyields
    obtain ⟨hsound, hgrows, hbinds⟩ :=
      artifactFor_spec hsep h (hnames name List.mem_cons_self) hsource
    obtain ⟨⟨others, d₂⟩, hrest, hyields⟩ := Recorded.yields_bind.mp hyields
    obtain ⟨hsound', hgrows', hothers⟩ :=
      ih hsound (fun n hn => hnames n (List.mem_cons_of_mem _ hn)) hrest
    obtain ⟨rfl, rfl⟩ := Recorded.yields_pure_pair hyields
    have hbinds := hbinds.mono hgrows'.parts
    rw [← hgrows'.taskNames] at hbinds
    exact ⟨hsound', hgrows.trans hgrows', .cons ⟨rfl, hbinds⟩ hothers⟩

end PipelineCompiler.Vertex
