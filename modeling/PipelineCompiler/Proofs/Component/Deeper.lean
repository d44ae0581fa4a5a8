import PipelineCompiler.Component.Loader
import PipelineCompiler.Proofs.Success

namespace PipelineCompiler

/-!
# Texts within texts

A component may be given as text, and its tasks may hold components as text again.  What is read
does not depend on how many texts may lie one inside the other, as long as these are enough.

* `Settles` — results for greater and greater depths come to a result, unless that one tells that
  the depth was not enough; its laws for chains;
* `settles_taskOf`, `settles_ofValueWith` — what is read comes to a result when the readers of
  texts do;
* `settles_ofText` — so it does for the readers of the loader.
-/

/-! ### Results that do not change any more -/

/-- The results for greater and greater depths come to a result, unless that one tells that the
    depth was not enough. -/
def Settles {α : Type} (results : Nat → Except Failure α) (result : Except Failure α) : Prop :=
  result = .error .illTyped ∨ ∃ depth, ∀ deeper, depth ≤ deeper → results deeper = result

section Chains

variable {α β : Type} {xs : Nat → Except Failure α} {x : Except Failure α}

/-- Results that are the same for every depth. -/
theorem settles_of_eq (h : ∀ depth, xs depth = x) : Settles xs x :=
  .inr ⟨0, fun deeper _ => h deeper⟩

/-- Two steps, one after the other. -/
theorem Settles.bind {fs : Nat → α → Except Failure β} {f : α → Except Failure β}
    (hx : Settles xs x) (hf : ∀ a, Settles (fun depth => fs depth a) (f a)) :
    Settles (fun depth => xs depth >>= fs depth) (x >>= f) := by
  rcases hx with rfl | ⟨depth, hdepth⟩
  · exact .inl rfl
  cases x with
  | error e =>
    exact .inr ⟨depth, fun deeper hle => congrArg (· >>= fs deeper) (hdepth deeper hle)⟩
  | ok a =>
    rcases hf a with ha | ⟨depth', hdepth'⟩
    · exact .inl ha
    · refine .inr ⟨max depth depth', fun deeper hle => ?_⟩
      have hx := hdepth deeper (Nat.le_trans (Nat.le_max_left _ _) hle)
      exact (congrArg (· >>= fs deeper) hx).trans
        (hdepth' deeper (Nat.le_trans (Nat.le_max_right _ _) hle))

/-- A function is applied to the result. -/
theorem Settles.map (hx : Settles xs x) (f : α → β) :
    Settles (fun depth => (xs depth).map f) (x.map f) := by
  rcases hx with rfl | ⟨depth, hdepth⟩
  · exact .inl rfl
  · exact .inr ⟨depth, fun deeper hle => congrArg (Except.map f) (hdepth deeper hle)⟩

/-- The result is one for a task. -/
theorem Settles.underTask (hx : Settles xs x) (key : Value) :
    Settles (fun depth => underTask key (xs depth)) (underTask key x) := by
  rcases hx with rfl | ⟨depth, hdepth⟩
  · refine .inl ?_
    unfold PipelineCompiler.underTask
    split
    · rfl
    · rfl
  · exact .inr ⟨depth, fun deeper hle =>
      congrArg (PipelineCompiler.underTask key) (hdepth deeper hle)⟩

end Chains

/-! ### The loader -/

/-- The readers for greater and greater depths come to a reader, text by text. -/
def ReadersSettle (readers : Nat → String → Except Failure Component)
    (readText : String → Except Failure Component) : Prop :=
  ∀ text, Settles (fun depth => readers depth text) (readText text)

section Loader

variable {readers : Nat → String → Except Failure Component}
  {readText : String → Except Failure Component}

mutual

/-- What is read of a component comes to a result. -/
theorem settles_ofValueWith (h : ReadersSettle readers readText) : ∀ v : Value,
    Settles (fun depth => Component.ofValueWith (readers depth) v)
      (Component.ofValueWith readText v)
  | .map fields => by
    simp only [Component.ofValueWith]
    exact (settles_implementationField h fields).bind fun _ => settles_of_eq fun _ => rfl
  | .placed _ v => settles_ofValueWith h v
  | .null | .bool _ | .int _ | .float _ | .str _ | .bytes _ | .date _ | .timestamp _ | .list _
  | .tuple _ | .set _ | .endless => settles_of_eq fun _ => rfl

/-- So does the implementation among the fields of a component. -/
theorem settles_implementationField (h : ReadersSettle readers readText) :
    ∀ fields : List (Value × Value),
      Settles (fun depth => Component.implementationField (readers depth) fields)
        (Component.implementationField readText fields)
  | [] => settles_of_eq fun _ => rfl
  | (key, value) :: rest => by
    simp only [Component.implementationField]
    split
    · exact settles_implementationOf h value
    · exact settles_implementationField h rest

/-- So does an implementation. -/
theorem settles_implementationOf (h : ReadersSettle readers readText) : ∀ v : Value,
    Settles (fun depth => Component.implementationOf (readers depth) v)
      (Component.implementationOf readText v)
  | .map fields => by
    simp only [Component.implementationOf]
    split
    · exact settles_of_eq fun _ => rfl
    · exact settles_graphField h fields fields
  | .placed _ v => settles_implementationOf h v
  | .null | .bool _ | .int _ | .float _ | .str _ | .bytes _ | .date _ | .timestamp _ | .list _
  | .tuple _ | .set _ | .endless => settles_of_eq fun _ => rfl

/-- So does the graph among the fields of an implementation. -/
theorem settles_graphField (h : ReadersSettle readers readText) (all : Value.Entries) :
    ∀ fields : List (Value × Value),
      Settles (fun depth => Component.graphField (readers depth) all fields)
        (Component.graphField readText all fields)
  | [] => settles_of_eq fun _ => rfl
  | (key, value) :: rest => by
    simp only [Component.graphField]
    split
    · exact (settles_graphOf h value).map _
    · exact settles_graphField h all rest

/-- So does a graph. -/
theorem settles_graphOf (h : ReadersSettle readers readText) : ∀ v : Value,
    Settles (fun depth => Component.graphOf (readers depth) v) (Component.graphOf readText v)
  | .map fields => by
    simp only [Component.graphOf]
    exact (settles_tasksField h fields).bind fun _ => settles_of_eq fun _ => rfl
  | .placed _ v => settles_graphOf h v
  | .null | .bool _ | .int _ | .float _ | .str _ | .bytes _ | .date _ | .timestamp _ | .list _
  | .tuple _ | .set _ | .endless => settles_of_eq fun _ => rfl

/-- So do the tasks among the fields of a graph. -/
theorem settles_tasksField (h : ReadersSettle readers readText) :
    ∀ fields : List (Value × Value),
      Settles (fun depth => Component.tasksField (readers depth) fields)
        (Component.tasksField readText fields)
  | [] => settles_of_eq fun _ => rfl
  | (key, value) :: rest => by
    simp only [Component.tasksField]
    split
    · exact settles_tasksOf h value
    · exact settles_tasksField h rest

/-- So does a mapping of tasks. -/
theorem settles_tasksOf (h : ReadersSettle readers readText) : ∀ v : Value,
    Settles (fun depth => Component.tasksOf (readers depth) v) (Component.tasksOf readText v)
  | .map entries => by
    simp only [Component.tasksOf]
    exact settles_taskEntries h entries []
  | .placed _ v => settles_tasksOf h v
  | .null | .bool _ | .int _ | .float _ | .str _ | .bytes _ | .date _ | .timestamp _ | .list _
  | .tuple _ | .set _ | .endless => settles_of_eq fun _ => rfl

/-- So do tasks, one after another. -/
theorem settles_taskEntries (h : ReadersSettle readers readText) :
    ∀ (entries : List (Value × Value)) (done : List (String × GraphTask)),
      Settles (fun depth => Component.taskEntries (readers depth) done entries)
        (Component.taskEntries readText done entries)
  | [], _ => settles_of_eq fun _ => rfl
  | (key, value) :: rest, done => by
    simp only [Component.taskEntries]
    exact ((settles_taskOf h value).underTask key).bind fun found =>
      settles_taskEntries h rest (Keyed.put done found.1 found.2)

/-- **So does a task.** -/
theorem settles_taskOf (h : ReadersSettle readers readText) : ∀ v : Value,
    Settles (fun depth => Component.taskOf (readers depth) v) (Component.taskOf readText v)
  | .map fields => by
    simp only [Component.taskOf]
    split
    · exact settles_of_eq fun _ => rfl
    · refine Settles.bind (settles_of_eq fun _ => rfl) fun given => ?_
      exact (settles_referenceField h fields).bind fun _ => settles_of_eq fun _ => rfl
  | .placed _ v => settles_taskOf h v
  | .null | .bool _ | .int _ | .float _ | .str _ | .bytes _ | .date _ | .timestamp _ | .list _
  | .tuple _ | .set _ | .endless => settles_of_eq fun _ => rfl

/-- So does the reference among the fields of a task. -/
theorem settles_referenceField (h : ReadersSettle readers readText) :
    ∀ fields : List (Value × Value),
      Settles (fun depth => Component.referenceField (readers depth) fields)
        (Component.referenceField readText fields)
  | [] => settles_of_eq fun _ => rfl
  | (key, value) :: rest => by
    simp only [Component.referenceField]
    split
    · exact settles_referenceOf h value
    · exact settles_referenceField h rest

/-- So does a reference, whether it gives the component as a value or as text. -/
theorem settles_referenceOf (h : ReadersSettle readers readText) : ∀ v : Value,
    Settles (fun depth => Component.referenceOf (readers depth) v)
      (Component.referenceOf readText v)
  | .map fields => by
    simp only [Component.referenceOf]
    refine (settles_specField h fields).bind fun given => ?_
    split
    · exact settles_of_eq fun _ => rfl
    next text _ => exact ((h text).map some).bind fun _ => settles_of_eq fun _ => rfl
    · exact settles_of_eq fun _ => rfl
  | .placed _ v => settles_referenceOf h v
  | .null | .bool _ | .int _ | .float _ | .str _ | .bytes _ | .date _ | .timestamp _ | .list _
  | .tuple _ | .set _ | .endless => settles_of_eq fun _ => rfl

/-- So does the component among the fields of a reference. -/
theorem settles_specField (h : ReadersSettle readers readText) :
    ∀ fields : List (Value × Value),
      Settles (fun depth => Component.specField (readers depth) fields)
        (Component.specField readText fields)
  | [] => settles_of_eq fun _ => rfl
  | (key, value) :: rest => by
    simp only [Component.specField]
    split
    · split
      · exact settles_of_eq fun _ => rfl
      · exact (settles_ofValueWith h value).map some
    · exact settles_specField h rest

end

end Loader

/-- **What is read from a text does not depend on the depth**, as long as the depth is enough. -/
theorem settles_ofText (depth : Nat) : ReadersSettle Component.ofText (Component.ofText depth) := by
  induction depth with
  | zero => exact fun _ => .inl rfl
  | succ depth ih =>
    intro text
    have hsettles : Settles
        (fun depth => (Format.yaml.read text).mapError Component.textFailure >>=
          Component.ofValueWith (Component.ofText depth))
        (Component.ofText (depth + 1) text) :=
      Settles.bind (settles_of_eq fun _ => rfl) fun v => settles_ofValueWith ih v
    rcases hsettles with h | ⟨enough, henough⟩
    · exact .inl h
    -- the text itself takes one
    · refine .inr ⟨enough + 1, fun deeper hle => ?_⟩
      obtain ⟨deeper, rfl⟩ : ∃ inner, deeper = inner + 1 := ⟨deeper - 1, by omega⟩
      exact henough deeper (Nat.le_of_succ_le_succ hle)

end PipelineCompiler
