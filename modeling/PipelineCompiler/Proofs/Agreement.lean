import PipelineCompiler.Proofs.Success

namespace PipelineCompiler

/-!
# Two runs that agree

Statements about two runs compare them step by step: both steps have results, which are related,
or both fail, and then how they fail is compared as well.

* `Failure.verdict?` — kind and place of a failure, which do not depend on the target;
* `Tolerance` — what is asked of two failures, and after which failures of the first run nothing
  is asked of the second one;
* `Tolerance.same`, `Tolerance.anyFailure`, `Tolerance.verdict` — one failure on both sides, any
  two, or two with one verdict;
* `Agree` — the comparison of two steps;
* `Agree.bind`, `Recorded.agree_bind` — chains agree when their steps do;
* `FailsBehind` — the comparison of a run that fails behind its first steps.
-/

/-! ### Failures -/

/-- The verdict of a compilation error: its kind, and the task it belongs to. -/
def Failure.verdict? : Failure → Option (ErrorKind × List String)
  | .compilation e => some (e.cause.diagnosis.kind, e.taskPath)
  | _ => none

/-- A failure with a verdict is a compilation error. -/
theorem Failure.verdict?_eq_some {e : Failure} {kind : ErrorKind} {path : List String} :
    e.verdict? = some (kind, path) ↔
      ∃ error, e = .compilation error ∧ error.cause.diagnosis.kind = kind ∧
        error.taskPath = path := by
  cases e with
  | compilation error => simp [Failure.verdict?]
  | config | refusal | accident => simp [Failure.verdict?]

/-- A run whose failure has a verdict ends with a compilation error. -/
theorem exists_error_of_verdict {α : Type} {x : Except Failure α} {kind : ErrorKind}
    {path : List String} (h : (failure? x).bind Failure.verdict? = some (kind, path)) :
    ∃ error, x = .error (.compilation error) ∧ error.cause.diagnosis.kind = kind ∧
      error.taskPath = path := by
  obtain ⟨e, he, hverdict⟩ := Option.bind_eq_some_iff.mp h
  obtain ⟨error, rfl, hkind, hpath⟩ := Failure.verdict?_eq_some.mp hverdict
  exact ⟨error, failure?_eq_some.mp he, hkind, hpath⟩

/-- The accident that a failure is. -/
def Failure.accident? : Failure → Option Accident
  | .accident a => some a
  | _ => none

/-- A failure that is an accident. -/
theorem accident?_eq_some {e : Failure} {a : Accident} :
    e.accident? = some a ↔ e = .accident a := by
  cases e with
  | accident a' => simp [Failure.accident?]
  | compilation | config | refusal => simp [Failure.accident?]

/-- The verdict on a task, seen from the graph around it. -/
theorem Failure.verdict?_within (taskId : String) (e : Failure) :
    (e.within taskId).verdict? = e.verdict?.map fun v => (v.1, taskId :: v.2) := by
  cases e with
  | compilation | config | refusal | accident => rfl

/-- What is asked of two runs that do not both have results.  It does not matter to which tasks
    failures are attributed, as long as this is done on both sides. -/
structure Tolerance where
  /-- Failures of the first run after which nothing is asked of the second one. -/
  stops : Failure → Prop
  /-- Failures of the two runs that go together. -/
  alike : Failure → Failure → Prop
  stops_within : ∀ id e, stops e → stops (e.within id)
  alike_within : ∀ id e e', alike e e' → alike (e.within id) (e'.within id)

namespace Tolerance

/-- Both runs have one failure. -/
def same : Tolerance where
  stops _ := False
  alike e e' := e = e'
  stops_within _ _ h := h
  alike_within _ _ _ h := h ▸ rfl

/-- Both runs fail, no matter how. -/
def anyFailure : Tolerance where
  stops _ := False
  alike _ _ := True
  stops_within _ _ h := h
  alike_within _ _ _ _ := trivial

/-- Both runs fail with one verdict, which is not that a constant is passed as a file.  That is
    something only one target refuses, and if `mayStop` holds the first run may stop with it. -/
def verdict (mayStop : Prop) : Tolerance where
  stops e := mayStop ∧ ∃ path, e.verdict? = some (.constantArtifact, path)
  alike e e' := ∃ kind path, kind ≠ .constantArtifact ∧ e.verdict? = some (kind, path) ∧
    e'.verdict? = some (kind, path)
  stops_within id e := by
    rintro ⟨hmay, path, hpath⟩
    exact ⟨hmay, id :: path, by rw [Failure.verdict?_within, hpath, Option.map_some]⟩
  alike_within id e e' := by
    rintro ⟨kind, path, hkind, he, he'⟩
    refine ⟨kind, id :: path, hkind, ?_, ?_⟩
    · rw [Failure.verdict?_within, he, Option.map_some]
    · rw [Failure.verdict?_within, he', Option.map_some]

/-- One cause on both sides that every target knows. -/
theorem alike_verdict {mayStop : Prop} {cause : Cause}
    (h : cause.diagnosis.kind ≠ .constantArtifact) :
    (verdict mayStop).alike (.ofCause cause) (.ofCause cause) := ⟨_, [], h, rfl, rfl⟩

end Tolerance

/-- Two steps have related results, or fail in a way that is tolerated. -/
inductive Agree (T : Tolerance) {α β : Type} (R : α → β → Prop) :
    Except Failure α → Except Failure β → Prop
  | both {a : α} {b : β} (related : R a b) : Agree T R (.ok a) (.ok b)
  | neither {e e' : Failure} (alike : T.alike e e') : Agree T R (.error e) (.error e')
  | stopped {e : Failure} {y : Except Failure β} (stops : T.stops e) : Agree T R (.error e) y

/-! ### Plain steps -/

namespace Agree

variable {T : Tolerance} {α β γ δ : Type} {R : α → β → Prop} {S : γ → δ → Prop}

/-- Results that are related in another way too. -/
theorem mono {R' : α → β → Prop} (hR : ∀ a b, R a b → R' a b) {x : Except Failure α}
    {y : Except Failure β} (h : Agree T R x y) : Agree T R' x y := by
  cases h with
  | both related => exact .both (hR _ _ related)
  | neither alike => exact .neither alike
  | stopped stops => exact .stopped stops

/-- What is related are the results of the steps. -/
theorem results {x : Except Failure α} {y : Except Failure β} (h : Agree T R x y) :
    Agree T (fun a b => x = .ok a ∧ y = .ok b ∧ R a b) x y := by
  cases h with
  | both related => exact .both ⟨rfl, rfl, related⟩
  | neither alike => exact .neither alike
  | stopped stops => exact .stopped stops

/-- Two steps, one after the other. -/
theorem bind {x : Except Failure α} {y : Except Failure β} {f : α → Except Failure γ}
    {g : β → Except Failure δ} (h : Agree T R x y)
    (hnext : ∀ a b, R a b → Agree T S (f a) (g b)) :
    Agree T S (x >>= f) (y >>= g) := by
  cases h with
  | both related => exact hnext _ _ related
  | neither alike => exact .neither alike
  | stopped stops => exact .stopped stops

/-- A step on the left, after which the right side is as far as it gets. -/
theorem bind_left {x : Except Failure α} {y : Except Failure β} {f : α → Except Failure γ}
    {S : γ → β → Prop} (h : Agree T R x y)
    (hnext : ∀ a b, R a b → Agree T S (f a) (.ok b)) :
    Agree T S (x >>= f) y := by
  cases h with
  | both related => exact hnext _ _ related
  | neither alike => exact .neither alike
  | stopped stops => exact .stopped stops

/-- A step on the right, after which the left side is as far as it gets. -/
theorem bind_right {x : Except Failure α} {y : Except Failure β} {g : β → Except Failure δ}
    {S : α → δ → Prop} (h : Agree T R x y)
    (hnext : ∀ a b, R a b → Agree T S (.ok a) (g b)) :
    Agree T S x (y >>= g) := by
  cases h with
  | both related => exact hnext _ _ related
  | neither alike => exact .neither alike
  | stopped stops => exact .stopped stops

/-- A step on the left that fails in no way the right side would know. -/
theorem bind_ok {x : Except Failure α} {b : β} {f : α → Except Failure γ}
    {y : Except Failure δ}
    (h : Agree T R x (.ok b)) (hnext : ∀ a, R a b → Agree T S (f a) y) :
    Agree T S (x >>= f) y := by
  cases h with
  | both related => exact hnext _ related
  | stopped stops => exact .stopped stops

/-- Functions are applied to both results. -/
theorem map {f : α → γ} {g : β → δ} {x : Except Failure α} {y : Except Failure β}
    (h : Agree T R x y) (hfg : ∀ a b, R a b → S (f a) (g b)) :
    Agree T S (x.map f) (y.map g) := by
  cases h with
  | both related => exact .both (hfg _ _ related)
  | neither alike => exact .neither alike
  | stopped stops => exact .stopped stops

/-- A function is applied to the second result. -/
theorem map_right {g : β → δ} {S : α → δ → Prop} {x : Except Failure α}
    {y : Except Failure β}
    (h : Agree T R x y) (hg : ∀ a b, R a b → S a (g b)) : Agree T S x (y.map g) := by
  cases h with
  | both related => exact .both (hg _ _ related)
  | neither alike => exact .neither alike
  | stopped stops => exact .stopped stops

/-- Failures may be attributed to a task on both sides. -/
theorem within {taskId : String} {x : Except Failure α} {y : Except Failure β}
    (h : Agree T R x y) : Agree T R (withinTask taskId x) (withinTask taskId y) := by
  cases h with
  | both related => exact .both related
  | neither alike => exact .neither (T.alike_within taskId _ _ alike)
  | stopped stops => exact .stopped (T.stops_within taskId _ stops)

/-- A step that has a result is the same step. -/
theorem refl {x : Except Failure α} (hsame : ∀ e, x = .error e → T.alike e e) :
    Agree T Eq x x := by
  cases x with
  | error e => exact .neither (hsame e rfl)
  | ok a => exact .both rfl

/-- Verdicts are compared across a third step, if only the first one may stop. -/
theorem trans {mayStop : Prop} {S : β → γ → Prop} {x : Except Failure α}
    {y : Except Failure β}
    {z : Except Failure γ} (h : Agree (.verdict mayStop) R x y)
    (h' : Agree (.verdict False) S y z) :
    Agree (.verdict mayStop) (fun a c => ∃ b, R a b ∧ S b c) x z := by
  -- A run that may stop does so whatever comes after it.
  cases h with
  | both related =>
    cases h' with
    | both related' => exact .both ⟨_, related, related'⟩
  | neither alike =>
    obtain ⟨kind, path, hkind, he, he'⟩ := alike
    cases h' with
    | neither alike' =>
      obtain ⟨kind', path', -, hmid, he''⟩ := alike'
      obtain ⟨rfl, rfl⟩ := Prod.mk.inj (Option.some.inj (he'.symm.trans hmid))
      exact .neither ⟨kind, path, hkind, he, he''⟩
    | stopped stops => exact stops.1.elim
  | stopped stops => exact .stopped stops

/-- What both steps give, or the failure of both. -/
theorem eq {x y : Except Failure α} (h : Agree .same Eq x y) : x = y := by
  cases h with
  | both related => rw [related]
  | neither alike => rw [show _ = _ from alike]
  | stopped stops => exact stops.elim

/-- Where the first step has a result, the second one has a related result. -/
theorem exists_ok {x : Except Failure α} {y : Except Failure β} (h : Agree T R x y) {a : α}
    (hx : x = .ok a) : ∃ b, y = .ok b ∧ R a b := by
  subst hx
  cases h with
  | both related => exact ⟨_, rfl, related⟩

/-- Where all failures are tolerated and results are the same, the results are the same. -/
theorem ok_iff {x y : Except Failure α} (h : Agree .anyFailure Eq x y) (a : α) :
    x = .ok a ↔ y = .ok a := by
  cases h with
  | both related => rw [related]
  | neither => simp
  | stopped stops => exact stops.elim

end Agree

/-! ### Failures behind a step -/

/-- A run has its first steps behind it, against a second run, and fails with `fault` then; or it
    fails earlier in a way that is tolerated. -/
inductive FailsBehind (T : Tolerance) (fault : Failure) {α β : Type} :
    Except Failure α → Except Failure β → Prop
  | behind {b : β} : FailsBehind T fault (.error fault) (.ok b)
  | neither {e e' : Failure} (alike : T.alike e e') : FailsBehind T fault (.error e) (.error e')
  | stopped {e : Failure} {y : Except Failure β} (stops : T.stops e) :
      FailsBehind T fault (.error e) y

/-- What fails behind steps that agree. -/
theorem Agree.failsBehind {T : Tolerance} {fault : Failure} {α β γ : Type}
    {R : α → β → Prop} {x : Except Failure α} {y : Except Failure β}
    {f : α → Except Failure γ} (h : Agree T R x y)
    (hfails : ∀ a b, R a b → f a = .error fault) : FailsBehind T fault (x >>= f) y := by
  cases h with
  | @both a b related =>
    have hbind : (Except.ok a >>= f) = .error fault := hfails a b related
    rw [hbind]
    exact .behind
  | neither alike => exact .neither alike
  | stopped stops => exact .stopped stops

/-! ### Recorded steps -/

namespace Recorded

variable {T : Tolerance} {α β γ δ ε : Type} {R : α → β → Prop} {S : γ → δ → Prop}

/-- Two recorded computations whose results agree. -/
def Agree (T : Tolerance) (R : α → β → Prop) (x : Recorded α) (y : Recorded β) : Prop :=
  PipelineCompiler.Agree T R x.result y.result

/-- Plain steps. -/
theorem agree_lift {x : Except Failure α} {y : Except Failure β}
    (h : PipelineCompiler.Agree T R x y) : (liftM x : Recorded α).Agree T R (liftM y) := h

/-- One computation on both sides. -/
theorem agree_refl (x : Recorded α) : x.Agree .anyFailure Eq x := .refl fun _ _ => trivial

/-- Two steps, one after the other. -/
theorem agree_bind {x : Recorded α} {y : Recorded β} {f : α → Recorded γ}
    {g : β → Recorded δ}
    (h : x.Agree T R y) (hnext : ∀ a b, R a b → (f a).Agree T S (g b)) :
    (x >>= f).Agree T S (y >>= g) := by
  unfold Agree
  rw [result_bind, result_bind]
  exact PipelineCompiler.Agree.bind h hnext

/-- A step that is not always taken, on both sides, and whose result nothing looks at. -/
theorem agree_unless {p : Prop} [Decidable p] {step : Recorded ε} {x : Recorded α}
    {y : Recorded β} (h : x.Agree .anyFailure R y) :
    (if p then x else step >>= fun _ => x).Agree .anyFailure R
      (if p then y else step >>= fun _ => y) := by
  split
  · exact h
  · exact agree_bind (agree_refl step) fun _ _ _ => h

/-- Failures may be attributed to a task on both sides. -/
theorem agree_within {taskId : String} {x : Recorded α} {y : Recorded β} (h : x.Agree T R y) :
    (x.within taskId).Agree T R (y.within taskId) := PipelineCompiler.Agree.within h

end Recorded
end PipelineCompiler
