import PipelineCompiler.Binding
import PipelineCompiler.Proofs.Keyed
import PipelineCompiler.Proofs.Success

namespace PipelineCompiler

/-!
# Arguments that count

* `Component.argumentFor` — the argument that counts for an input of a task: the given one, else
  the default, else the empty text;
* `argument_spec` — the argument that a task is compiled with is the one that counts;
* `argumentFor_literal`, `argumentFor_mem` — where the argument that counts comes from;
* `rootText_spec` — the same for an input of a whole pipeline;
* `plainTexts_eq` — values have a plain form together when each of them has one;
* `rootTexts_spec`, `rootTexts_result` — the texts of a pipeline are those that a caller's
  arguments come to, if they have a plain form.
-/

variable {P : String → Prop} {c : Component}

/-- The argument that counts for an input: the given one, else the default, else the empty text. -/
def Component.argumentFor (c : Component) (arguments : Keyed Argument) (name : String) :
    Argument :=
  match Keyed.find? arguments name with
  | some argument => argument
  | none => .literal (((c.input? name).bind InputSpec.default).getD "")

/-- The text that counts for an input of a whole pipeline. -/
def Component.rootTextFor (c : Component) (texts : Keyed String) (name : String) : String :=
  (Keyed.find? texts name).getD (((c.input? name).bind InputSpec.default).getD "")

/-- The texts that the arguments of a caller come to, in front of the defaults. -/
def Component.givenTexts (c : Component) (arguments : Keyed Value) : Keyed String :=
  arguments.foldl (fun texts entry => Keyed.put texts entry.1 entry.2.text)
    (c.inputs.filterMap fun input => input.default.map fun text => (input.name, text))

/-- An input is fetched when it is declared. -/
theorem fetchInput_eq_ok {name : String} {input : InputSpec} :
    c.fetchInput name = .ok input ↔ c.input? name = some input := by
  unfold Component.fetchInput
  cases c.input? name with
  | none => simp
  | some found => simp

/-- A declared input has the name by which it is found. -/
theorem input?_name {name : String} {input : InputSpec} (h : c.input? name = some input) :
    input.name = name := by
  have hfound := List.find?_some h
  simpa using hfound

/-- A declared input is found under a name that is declared. -/
theorem input?_mem {name : String} {input : InputSpec} (h : c.input? name = some input) :
    name ∈ c.inputNames := by
  rw [← input?_name h]
  exact List.mem_map_of_mem (f := InputSpec.name) (List.mem_of_find?_eq_some h)

/-- What an input is bound to: what is given, else the default, else the empty text. -/
theorem bound_spec {α : Type} {input : InputSpec} {given : Option α} {literal : String → α}
    {task : String} {a : α} (h : (input.bound given literal task).Yields P a) :
    a = given.getD (literal (input.default.getD "")) := by
  unfold InputSpec.bound at h
  split at h
  next found _ => exact (Recorded.yields_pure.mp h).symm
  next text htext =>
    rw [htext]
    exact (Recorded.yields_pure.mp h).symm
  next hnone =>
    split at h
    · obtain ⟨u, -, h⟩ := Recorded.yields_bind.mp h
      rw [hnone]
      exact (Recorded.yields_pure.mp h).symm
    · exact absurd h Recorded.not_yields_throw

/-- The argument that counts for a declared input. -/
theorem argumentFor_eq {name : String} {input : InputSpec} (hinput : c.input? name = some input)
    (arguments : Keyed Argument) : c.argumentFor arguments name =
      (Keyed.find? arguments name).getD (.literal (input.default.getD "")) := by
  unfold Component.argumentFor
  rw [hinput, Option.bind_some]
  cases Keyed.find? arguments name with
  | none => rfl
  | some argument => rfl

/-- **A task is compiled with the argument that counts.** -/
theorem argument_spec {name : String} {input : InputSpec} (hinput : c.input? name = some input)
    {arguments : Keyed Argument} {task : String} {a : Argument}
    (h : (input.argument arguments task).Yields P a) : a = c.argumentFor arguments name := by
  have hbound := bound_spec h
  rw [input?_name hinput] at hbound
  rw [hbound, argumentFor_eq hinput]

/-- A literal that counts is among the arguments, or it is a default, or it is empty. -/
theorem argumentFor_literal {arguments : Keyed Argument} {name text : String}
    (h : c.argumentFor arguments name = .literal text) :
    (∃ entry ∈ arguments, entry.2 = .literal text) ∨
      (∃ input ∈ c.inputs, input.default = some text) ∨ text = "" := by
  unfold Component.argumentFor at h
  -- An argument that is given counts; else the default does, and the empty text if there is none.
  split at h
  next argument hfind =>
    subst h
    exact .inl ⟨_, Keyed.mem_of_find? hfind, rfl⟩
  next =>
    injection h with htext
    cases hdefault : (c.input? name).bind InputSpec.default with
    | none =>
      rw [hdefault] at htext
      exact .inr (.inr htext.symm)
    | some found =>
      rw [hdefault, Option.getD_some] at htext
      subst htext
      obtain ⟨input, hinput, hfound⟩ := Option.bind_eq_some_iff.mp hdefault
      exact .inr (.inl ⟨input, List.mem_of_find?_eq_some hinput, hfound⟩)

/-- An argument that counts and is no literal is among the arguments. -/
theorem argumentFor_mem {arguments : Keyed Argument} {name : String} {argument : Argument}
    (h : c.argumentFor arguments name = argument) (hne : ∀ text, argument ≠ .literal text) :
    ∃ entry ∈ arguments, entry.2 = argument := by
  unfold Component.argumentFor at h
  split at h
  next found hfind => exact ⟨_, Keyed.mem_of_find? hfind, h⟩
  next => exact absurd h.symm (hne _)

/-- A pipeline is compiled with the text that counts. -/
theorem rootText_spec {name : String} {input : InputSpec} (hinput : c.input? name = some input)
    {texts : Keyed String} {text : String} (h : (input.rootText texts).Yields P text) :
    text = c.rootTextFor texts name := by
  have hbound := bound_spec h
  rw [input?_name hinput] at hbound
  rw [hbound]
  unfold Component.rootTextFor
  rw [hinput, Option.bind_some]
  rfl

/-- Values have a plain form together when each of them has one. -/
theorem plainTexts_eq (arguments : Keyed Value) :
    plainTexts arguments =
      if arguments.all fun entry => entry.2.isShown then .ok (Keyed.mapValues Value.text arguments)
      else .error .invalidValue := by
  unfold plainTexts
  induction arguments with
  | nil => rfl
  | cons entry rest ih =>
    rw [List.mapM_cons, ih, Value.shownText, List.all_cons]
    cases entry.2.isShown with
    | false => rfl
    | true =>
      rw [Bool.true_and, if_pos rfl]
      split
      · rfl
      · rfl

/-- The plain forms that were found are put in front of the defaults. -/
theorem givenTexts_eq (arguments : Keyed Value) :
    (Keyed.mapValues Value.text arguments).foldl
        (fun texts entry => Keyed.put texts entry.1 entry.2)
        (c.inputs.filterMap fun input => input.default.map fun text => (input.name, text)) =
      c.givenTexts arguments := by
  rw [Keyed.mapValues, List.foldl_map]
  rfl

/-- **The texts of a pipeline** are those that the arguments of the caller come to, all of which
    have a plain form then. -/
theorem rootTexts_spec {arguments : Keyed Value} {texts : Keyed String}
    (h : (c.rootTexts arguments).Yields P texts) :
    texts = c.givenTexts arguments ∧ (arguments.all fun entry => entry.2.isShown) = true := by
  unfold Component.rootTexts at h
  obtain ⟨u, -, h⟩ := Recorded.yields_bind.mp h
  obtain ⟨given, hgiven, h⟩ := Recorded.yields_bind.mp h
  have hplain := Recorded.yields_lift.mp hgiven
  rw [plainTexts_eq] at hplain
  split at hplain
  next hshown =>
    obtain rfl := Except.ok.inj hplain
    exact ⟨(Recorded.yields_pure.mp h).symm.trans (givenTexts_eq arguments), hshown⟩
  next => cases hplain

/-- There are such texts exactly if all arguments have a plain form. -/
theorem rootTexts_result (c : Component) (arguments : Keyed Value) :
    (c.rootTexts arguments).result =
      if arguments.all fun entry => entry.2.isShown then .ok (c.givenTexts arguments)
      else .error .invalidValue := by
  -- The warnings for unknown names never fail, so only the texts decide.
  have hwarnings : ∀ names : List String, (names.forM fun name =>
      if name ∈ c.inputNames then pure ()
      else Recorded.warn ""
        s!"Pipeline argument \"{name}\" does not match any pipeline input").result = .ok () := by
    intro names
    induction names with
    | nil => rfl
    | cons name rest ih =>
      rw [List.forM, Recorded.result_bind, ih]
      split
      · rfl
      · rfl
  unfold Component.rootTexts
  rw [Recorded.result_bind_of_ok (hwarnings _), Recorded.result_bind]
  have hlift : (liftM (plainTexts arguments) : Recorded (Keyed String)).result =
      plainTexts arguments := rfl
  rw [hlift, plainTexts_eq]
  split
  · exact congrArg Except.ok (givenTexts_eq arguments)
  · rfl

end PipelineCompiler
