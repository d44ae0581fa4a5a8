import PipelineCompiler.Naming.Registry
import PipelineCompiler.Proofs.Binding

namespace PipelineCompiler

/-!
# Warnings of a run

* `Note.warning?`, `Recorded.warnings` — the warnings of a journal, in their order;
* `Recorded.yields_bind_warnings` — the warnings of a step that succeeds come before those of the
  rest;
* `Recorded.IsSilent` — computations that note no warnings, whether they succeed or not;
* `absence`, `bound_warnings` — the warning for an input that nothing is given for.

The warnings of a chain of steps are put together while the chain is opened, so each function has
one lemma that says which warnings it leaves when it succeeds.
-/

/-- The warning that a note is, with its task. -/
def Note.warning? : Note → Option (String × String)
  | .event _ _ _ _ => none
  | .warning task message => some (task, message)

namespace Recorded

variable {α β : Type} {P : String → Prop}

/-- The warnings noted on the way to a result, each with its task. -/
def warnings (x : Recorded α) : List (String × String) := x.notes.filterMap Note.warning?

/-- Nothing is done. -/
@[simp] theorem warnings_pure (a : α) : (pure a : Recorded α).warnings = [] := rfl

/-- A warning is noted. -/
@[simp] theorem warnings_warn (task message : String) :
    (warn task message).warnings = [(task, message)] := rfl

/-- The attribution of failures leaves warnings alone. -/
@[simp] theorem warnings_within (taskId : String) (x : Recorded α) :
    (x.within taskId).warnings = x.warnings := rfl

/-- **Two steps that succeed**: the warnings of the second come behind those of the first. -/
theorem yields_bind_warnings {x : Recorded α} {f : α → Recorded β} {b : β}
    (h : (x >>= f).Yields P b) : ∃ a, x.Yields P a ∧ (f a).Yields P b ∧
      (x >>= f).warnings = x.warnings ++ (f a).warnings := by
  obtain ⟨a, hx, hf⟩ := yields_bind.mp h
  refine ⟨a, hx, hf, ?_⟩
  rw [warnings, bind_notes_of_ok hx.1, List.filterMap_append]
  rfl

/-- A warning that is noted under a condition. -/
theorem yields_warn_when {p : Prop} [Decidable p] {task message : String} {y : Recorded β} {b : β}
    (h : (if p then warn task message >>= fun _ => y else y).Yields P b) : y.Yields P b ∧
      (if p then warn task message >>= fun _ => y else y).warnings =
        (if p then [(task, message)] else []) ++ y.warnings := by
  split at h
  next hp =>
    obtain ⟨u, -, hy, hwarnings⟩ := yields_bind_warnings h
    rw [if_pos hp, if_pos hp]
    exact ⟨hy, hwarnings⟩
  next hp =>
    rw [if_neg hp, if_neg hp]
    exact ⟨h, rfl⟩

/-! ### Computations without warnings -/

/-- A computation notes no warnings, whether it succeeds or not. -/
def IsSilent (x : Recorded α) : Prop := x.warnings = []

/-- Two silent steps. -/
theorem IsSilent.bind {x : Recorded α} {f : α → Recorded β} (hx : x.IsSilent)
    (hf : ∀ a, (f a).IsSilent) : (x >>= f).IsSilent := by
  rcases x with ⟨notes, _ | a, digested⟩
  · exact hx
  · have hrest := hf a
    unfold IsSilent warnings at hx hrest ⊢
    rw [bind_notes_of_ok rfl, List.filterMap_append, hx, hrest]
    rfl

/-- A choice between silent computations. -/
theorem IsSilent.ite {p : Prop} [Decidable p] {x y : Recorded α} (hx : x.IsSilent)
    (hy : y.IsSilent) : (if p then x else y).IsSilent := by
  split
  · exact hx
  · exact hy

/-- **The rest of a chain** has all the warnings when the first step is silent. -/
theorem yields_bind_silent {x : Recorded α} {f : α → Recorded β} {b : β}
    (h : (x >>= f).Yields P b) (hx : x.IsSilent) :
    ∃ a, x.Yields P a ∧ (f a).Yields P b ∧ (x >>= f).warnings = (f a).warnings := by
  obtain ⟨a, ha, hf, hwarnings⟩ := yields_bind_warnings h
  exact ⟨a, ha, hf, by rw [hwarnings, hx, List.nil_append]⟩

/-- The same for a silent step that is not always taken. -/
theorem yields_unless_silent {p : Prop} [Decidable p] {x : Recorded α} {y : Recorded β} {b : β}
    (h : (if p then y else x >>= fun _ => y).Yields P b) (hx : x.IsSilent) : y.Yields P b ∧
      (if p then y else x >>= fun _ => y).warnings = y.warnings := by
  split at h
  next hp =>
    rw [if_pos hp]
    exact ⟨h, rfl⟩
  next hp =>
    obtain ⟨a, -, hy, hwarnings⟩ := yields_bind_silent h hx
    rw [if_neg hp]
    exact ⟨hy, hwarnings⟩

end Recorded

/-! ### Registries -/

/-- A part is named without warnings. -/
theorem Registry.intern_silent {α : Type} (r : Registry α) (record : α → Value)
    (stem : Except Failure String) (part : α) : (r.intern record stem part).IsSilent := by
  unfold Registry.intern
  refine .bind rfl fun key => .bind rfl fun given => .ite rfl rfl

/-! ### Inputs that nothing is given for -/

/-- The warning for an input that is used although nothing is given for it, not even a default. -/
def absence (name : String) : String :=
  s!"Input \"{name}\" is optional, but command-line " ++ "still uses it when it's not present."

/-- The warnings for an input of a task: one when nothing is given for it, not even a default. -/
def Component.absences {α : Type} (c : Component) (given : Keyed α) (task name : String) :
    List (String × String) :=
  if (Keyed.find? given name).isNone ∧ ((c.input? name).bind InputSpec.default).isNone then
    [(task, absence name)]
  else []

variable {P : String → Prop} {c : Component}

/-- **The warnings for an input** that is bound to something in the end. -/
theorem bound_warnings {α : Type} {input : InputSpec} {name : String}
    (hinput : c.input? name = some input) {given : Keyed α}
    {literal : String → α} {task : String}
    {a : α} (h : (input.bound (Keyed.find? given name) literal task).Yields P a) :
    (input.bound (Keyed.find? given name) literal task).warnings = c.absences given task name := by
  have hname := input?_name hinput
  unfold Component.absences
  rw [hinput, Option.bind_some]
  unfold InputSpec.bound at h ⊢
  -- Given, or with a default, there is nothing to warn of; else it has to be optional.
  cases hgiven : Keyed.find? given name with
  | some found => simp
  | none =>
    cases hdefault : input.default with
    | some text => simp
    | none =>
      rw [hgiven, hdefault] at h
      dsimp only at h ⊢
      split at h
      next hoptional =>
        rw [if_pos hoptional, if_pos ⟨rfl, rfl⟩, ← hname]
        rfl
      next => exact absurd h Recorded.not_yields_throw

/-- The warnings for an input of a task. -/
theorem argument_warnings {input : InputSpec} {name : String}
    (hinput : c.input? name = some input) {arguments : Keyed Argument} {task : String}
    {argument : Argument} (h : (input.argument arguments task).Yields P argument) :
    (input.argument arguments task).warnings = c.absences arguments task name := by
  have hname := input?_name hinput
  unfold InputSpec.argument at h ⊢
  rw [hname] at h ⊢
  exact bound_warnings hinput h

/-- The warnings for an input of a whole pipeline. -/
theorem rootText_warnings {input : InputSpec} {name : String}
    (hinput : c.input? name = some input) {texts : Keyed String} {text : String}
    (h : (input.rootText texts).Yields P text) :
    (input.rootText texts).warnings = c.absences texts "" name := by
  have hname := input?_name hinput
  unfold InputSpec.rootText at h ⊢
  rw [hname] at h ⊢
  exact bound_warnings hinput h

/-- The warnings for the arguments of a caller: one for each that no input takes. -/
def Component.strangers (c : Component) (arguments : Keyed Value) : List (String × String) :=
  ((Keyed.keys arguments).filter (· ∉ c.inputNames)).map fun name =>
    ("", s!"Pipeline argument \"{name}\" does not match any pipeline input")

/-- The warnings for the texts of a whole pipeline. -/
theorem rootTexts_warnings {arguments : Keyed Value} {texts : Keyed String}
    (h : (c.rootTexts arguments).Yields P texts) :
    (c.rootTexts arguments).warnings = c.strangers arguments := by
  unfold Component.rootTexts at h ⊢
  obtain ⟨u, hchecks, h, hwarnings⟩ := Recorded.yields_bind_warnings h
  obtain ⟨given, -, h, hplain⟩ := Recorded.yields_bind_silent h rfl
  rw [hwarnings, hplain, Recorded.warnings_pure, List.append_nil, Component.strangers]
  clear h hwarnings hplain
  generalize Keyed.keys arguments = names at hchecks ⊢
  -- By induction on the names that were given.
  induction names with
  | nil => rfl
  | cons name rest ih =>
    rw [List.forM] at hchecks ⊢
    obtain ⟨u', -, hrest, hwarnings⟩ := Recorded.yields_bind_warnings hchecks
    rw [hwarnings, ih hrest]
    by_cases hmem : name ∈ c.inputNames
    · simp [hmem]
    · simp [hmem]

end PipelineCompiler
