import PipelineCompiler.Journal

namespace PipelineCompiler

/-!
# Steps that succeed

A compilation is a chain of steps, and most statements about it are about chains that reach their
end.  This file opens such a chain step by step:

* `bind_eq_ok`, `fetch_eq_ok` — when a chain of plain steps has a result;
* `Recorded.result_bind` — the same for recorded steps;
* `Recorded.Yields` — a recorded computation has a result, and all the texts whose digests it
  takes have a property;
* `Recorded.yields_bind` and its siblings — the same for each way to build a computation.

The property of the texts is what an assumption on digests is about: it is fixed once for a whole
compilation and handed down to every step.
-/

/-! ### Plain steps -/

/-- A chain of two steps has a result when the first has one and the second makes it from that. -/
theorem bind_eq_ok {ε α β : Type} {x : Except ε α} {f : α → Except ε β} {b : β} :
    (x >>= f) = .ok b ↔ ∃ a, x = .ok a ∧ f a = .ok b := by
  cases x with
  | error e => simp [bind, Except.bind]
  | ok a => simp [bind, Except.bind]

/-- The same for the chain that is written as a function. -/
theorem bind_eq_ok' {ε α β : Type} {x : Except ε α} {f : α → Except ε β} {b : β} :
    x.bind f = .ok b ↔ ∃ a, x = .ok a ∧ f a = .ok b := bind_eq_ok

/-- Nothing is done. -/
theorem pure_eq_ok {ε α : Type} {a b : α} :
    (pure a : Except ε α) = .ok b ↔ a = b := by
  simp [pure, Except.pure]

/-- A function is applied to the result. -/
theorem map_eq_ok {ε α β : Type} {x : Except ε α} {f : α → β} {b : β} :
    x.map f = .ok b ↔ ∃ a, x = .ok a ∧ f a = b := by
  cases x with
  | error e => simp [Except.map]
  | ok a => simp [Except.map]

/-- Another failure does not change a result. -/
theorem mapError_eq_ok {ε ε' α : Type} {x : Except ε α} {f : ε → ε'} {a : α}
    (h : x.mapError f = .ok a) : x = .ok a := by
  cases x with
  | error e => cases h
  | ok b => exact Except.ok.inj h ▸ rfl

/-- What every step keeps is kept by all of them. -/
theorem foldlM_keeps {ε α β : Type} {f : β → α → Except ε β} {I : β → Prop}
    (hstep : ∀ done item next, f done item = .ok next → I done → I next) {items : List α}
    {start result : β} (h : items.foldlM f start = .ok result) (hI : I start) : I result := by
  induction items generalizing start with
  | nil => exact pure_eq_ok.mp h ▸ hI
  | cons item rest ih =>
    rw [List.foldlM_cons] at h
    obtain ⟨next, hnext, h⟩ := bind_eq_ok.mp h
    exact ih h (hstep _ _ _ hnext hI)

/-- A result that is there. -/
theorem toOption_eq_some {ε α : Type} {x : Except ε α} {a : α} :
    x.toOption = some a ↔ x = .ok a := by
  cases x with
  | error e => simp [Except.toOption]
  | ok b => simp [Except.toOption]

/-- The failure of what has no result. -/
def failure? {ε α : Type} : Except ε α → Option ε
  | .ok _ => none
  | .error e => some e

/-- A failure that is there. -/
theorem failure?_eq_some {ε α : Type} {x : Except ε α} {e : ε} :
    failure? x = some e ↔ x = .error e := by
  cases x with
  | error e' => simp [failure?]
  | ok a => simp [failure?]

/-- A key is fetched when it is found. -/
theorem fetch_eq_ok {α : Type} {entries : Keyed α} {key : String} {a : α} :
    Keyed.fetch entries key = .ok a ↔ Keyed.find? entries key = some a := by
  unfold Keyed.fetch
  cases Keyed.find? entries key with
  | none => simp
  | some b => simp

/-! ### Recorded steps -/

namespace Recorded

variable {α β : Type} {P : String → Prop}

/-- The result of two steps, one after the other. -/
theorem result_bind (x : Recorded α) (f : α → Recorded β) :
    (x >>= f).result = x.result >>= fun a => (f a).result := by
  rcases x with ⟨notes, _ | a, digested⟩
  · rfl
  · rfl

/-- The second step alone, when the first one has a result. -/
theorem result_bind_of_ok {x : Recorded α} {f : α → Recorded β} {a : α}
    (h : x.result = .ok a) :
    (x >>= f).result = (f a).result := by
  rw [result_bind, h]
  rfl

/-- A computation has a result, and all texts whose digests it takes have a property. -/
def Yields (P : String → Prop) (x : Recorded α) (a : α) : Prop :=
  x.result = .ok a ∧ ∀ text ∈ x.digested, P text

/-- A computation with a result yields it, whatever all its texts have in common. -/
theorem yields_of_result {x : Recorded α} {a : α} (h : x.result = .ok a) :
    x.Yields (· ∈ x.digested) a := ⟨h, fun _ hmem => hmem⟩

/-- A computation with a result yields it, if nothing is asked of its texts. -/
theorem yields_true {α : Type} {x : Recorded α} {a : α} (h : x.result = .ok a) :
    x.Yields (fun _ => True) a := ⟨h, fun _ _ => trivial⟩

/-- Nothing is done. -/
@[simp] theorem yields_pure {a b : α} : (pure a : Recorded α).Yields P b ↔ a = b := by
  constructor
  · rintro ⟨h, -⟩
    exact Except.ok.inj h
  · rintro rfl
    exact ⟨rfl, by simp [pure, ofExcept]⟩

/-- Nothing is done, and the result is a pair. -/
theorem yields_pure_pair {a a' : α} {b b' : β}
    (h : (pure (a, b) : Recorded (α × β)).Yields P (a', b')) : a = a' ∧ b = b' :=
  Prod.mk.inj (yields_pure.mp h)

/-- A plain step. -/
@[simp] theorem yields_lift {x : Except Failure α} {a : α} :
    (liftM x : Recorded α).Yields P a ↔ x = .ok a := by
  constructor
  · rintro ⟨h, -⟩
    exact h
  · intro h
    exact ⟨h, by simp [liftM, monadLift, MonadLift.monadLift, ofExcept]⟩

/-- Two steps, one after the other. -/
theorem yields_bind {x : Recorded α} {f : α → Recorded β} {b : β} :
    (x >>= f).Yields P b ↔ ∃ a, x.Yields P a ∧ (f a).Yields P b := by
  rcases x with ⟨notes, _ | a, digested⟩
  · simp [Yields, bind, andThen]
  · constructor
    · rintro ⟨h, hP⟩
      refine ⟨a, ⟨rfl, fun text htext => ?_⟩, ⟨h, fun text htext => ?_⟩⟩
      · exact hP text (List.mem_append_left _ htext)
      · exact hP text (List.mem_append_right _ htext)
    · rintro ⟨a', ⟨ha, hx⟩, h, hf⟩
      obtain rfl : a = a' := Except.ok.inj ha
      refine ⟨h, fun text htext => ?_⟩
      rcases List.mem_append.mp htext with htext | htext
      · exact hx text htext
      · exact hf text htext

/-- A failure yields nothing. -/
@[simp] theorem not_yields_throw {e : Failure} {a : α} :
    ¬ (throw e : Recorded α).Yields P a := by
  rintro ⟨h, -⟩
  change Except.error e = .ok a at h
  cases h

/-- The attribution of failures leaves results alone. -/
@[simp] theorem yields_within {taskId : String} {x : Recorded α} {a : α} :
    (x.within taskId).Yields P a ↔ x.Yields P a := by
  rcases x with ⟨notes, e | b, digested⟩
  · constructor
    · rintro ⟨h, -⟩
      change Except.error (e.within taskId) = .ok a at h
      cases h
    · rintro ⟨h, -⟩
      cases h
  · exact .rfl

/-- A step that is not always taken, and whose result nothing looks at. -/
theorem Yields.of_unless {p : Prop} [Decidable p] {x : Recorded α} {y : Recorded β} {b : β}
    (h : (if p then y else x >>= fun _ => y).Yields P b) : y.Yields P b := by
  split at h
  · exact h
  · obtain ⟨a, -, h⟩ := yields_bind.mp h
    exact h

/-- The same for a step that is taken under the condition. -/
theorem Yields.of_when {p : Prop} [Decidable p] {x : Recorded α} {y : Recorded β} {b : β}
    (h : (if p then x >>= fun _ => y else y).Yields P b) : y.Yields P b := by
  split at h
  · obtain ⟨a, -, h⟩ := yields_bind.mp h
    exact h
  · exact h

/-- A digest is taken of a text that has the property. -/
theorem yields_digest {text : Except Failure String} {key : String} :
    (digest text).Yields P key ↔ ∃ t, text = .ok t ∧ P t ∧ key = Digest.sha256Hex t := by
  cases text with
  | error e => simp [Yields, digest, Except.map]
  | ok t =>
    simp only [Yields, digest, Except.map, Except.toOption, Option.toList, Except.ok.injEq,
      List.mem_singleton, forall_eq, exists_eq_left']
    exact ⟨fun ⟨hkey, ht⟩ => ⟨ht, hkey.symm⟩, fun ⟨ht, hkey⟩ => ⟨hkey.symm, ht⟩⟩

end Recorded
end PipelineCompiler
