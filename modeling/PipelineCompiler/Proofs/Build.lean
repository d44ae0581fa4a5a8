import PipelineCompiler.Build
import PipelineCompiler.Naming.Registry

namespace PipelineCompiler

/-!
# Builds follow their records

A step of a build follows a recorded computation in a context if it ends the same way whatever was
noted before, adds the notes of the computation behind those, and leaves the context itself as it
is.

* `OpenContext.tell` — an open context after some notes;
* `Build.Follows` — a step follows a recorded computation;
* `Follows.bind`, `Follows.within`, `Follows.settings` and others — each way of making steps keeps
  this;
* `argument_follows`, `rootText_follows`, `rootTexts_follows` — what inputs are bound to.
-/

/-! ### Notes -/

/-- The context after some notes. -/
def OpenContext.tell (o : OpenContext) (notes : List Note) : OpenContext :=
  { o with
    events := o.events ++ notes.map (Note.eventFor o.context.target)
    warnings := notes.foldl Note.addTo o.warnings }

/-- Notes leave the context itself alone. -/
theorem OpenContext.tell_context (o : OpenContext) (notes : List Note) :
    (o.tell notes).context = o.context := rfl

/-- Without notes nothing is added. -/
theorem OpenContext.tell_nil (o : OpenContext) : o.tell [] = o := by
  rw [tell, List.map_nil, List.append_nil]
  rfl

/-- Notes are taken one after another. -/
theorem OpenContext.tell_append (o : OpenContext) (notes later : List Note) :
    o.tell (notes ++ later) = (o.tell notes).tell later := by
  simp only [tell, List.map_append, List.append_assoc, List.foldl_append]

/-- The id under which notes are kept is kept under itself. -/
theorem taskKey_taskKey (task : String) : taskKey (taskKey task) = taskKey task := by
  unfold taskKey
  by_cases h : task.isEmpty = true
  · rw [if_pos h]
    exact if_neg (by decide)
  · rw [if_neg h, if_neg h]

/-- A warning is a note. -/
theorem OpenContext.warned_eq (o : OpenContext) (task message : String) :
    o.warned task message = o.tell [.warning task message] := by
  simp only [warned, logged, tell, List.map_cons, List.map_nil, List.foldl_cons, List.foldl_nil,
    Note.addTo, Note.eventFor, eventFields, taskKey_taskKey]

namespace Build

/-- **A step follows a recorded computation** in a context: it ends the same way whatever was noted
    before, and leaves behind the notes of the computation and nothing else. -/
def Follows (context : Context) (b : Build α) (r : Recorded α) : Prop :=
  ∀ o : OpenContext, o.context = context → b.run.run o = (r.result, o.tell r.notes)

namespace Follows

variable {context : Context}

/-- A step that has its result at once. -/
theorem pure (a : α) : Follows context (Pure.pure a) (Pure.pure a) := fun o _ => by
  show (_, o) = (_, o.tell [])
  rw [o.tell_nil]
  rfl

/-- A step without effects. -/
theorem lift (x : Except Failure α) :
    Follows context (liftM x : Build α) (liftM x : Recorded α) := fun o _ => by
  show (x, o) = (x, o.tell [])
  rw [o.tell_nil]

/-- A step that fails. -/
theorem throw (e : Failure) :
    Follows context (MonadExcept.throw e : Build α) (MonadExcept.throw e) := fun o _ => by
  show (_, o) = (_, o.tell [])
  rw [o.tell_nil]
  rfl

/-- The result of a computation that takes no notes. -/
theorem result {r : Recorded α} (h : r.notes = []) :
    Follows context (liftM r.result : Build α) r := fun o _ => by
  show (r.result, o) = (r.result, o.tell r.notes)
  rw [h, o.tell_nil]

/-- What a step does after another one. -/
theorem run_bind (b : Build α) (f : α → Build β) (o : OpenContext) :
    (b >>= f).run.run o =
      match b.run.run o with
      | (.ok a, later) => (f a).run.run later
      | (.error e, later) => (.error e, later) := by
  rw [ExceptT.run_bind, StateT.run_bind]
  obtain ⟨result, later⟩ := b.run.run o
  cases result <;> rfl

/-- One step after another. -/
theorem bind {b : Build α} {r : Recorded α} {f : α → Build β} {g : α → Recorded β}
    (h : Follows context b r) (hf : ∀ a, r.result = .ok a → Follows context (f a) (g a)) :
    Follows context (b >>= f) (r >>= g) := fun o ho => by
  rw [run_bind, h o ho]
  obtain ⟨notes, result, digested⟩ := r
  cases result with
  | ok a =>
    show (f a).run.run (o.tell notes) = ((g a).result, o.tell (notes ++ (g a).notes))
    rw [hf a rfl (o.tell notes) ho, o.tell_append]
  | error e => rfl

/-- A result that is looked up, and so is its counterpart, before a step. -/
theorem lift_bind {x : Except Failure α} {y : Except Failure α'} {f : α → Build β}
    {g : α' → Recorded β} (h : (∃ e, x = .error e ∧ y = .error e) ∨
      ∃ a a', x = .ok a ∧ y = .ok a' ∧ Follows context (f a) (g a')) :
    Follows context (liftM x >>= f) (liftM y >>= g) := fun o ho => by
  obtain ⟨e, rfl, rfl⟩ | ⟨a, a', rfl, rfl, h⟩ := h
  · show (Except.error e, o) = (Except.error e, o.tell [])
    rw [o.tell_nil]
  · exact h o ho

/-- A step whose failures are attributed to a task. -/
theorem within {b : Build α} {r : Recorded α} (h : Follows context b r) (taskId : String) :
    Follows context (Build.within taskId b) (r.within taskId) := fun o ho => by
  show ((withinTask taskId (b.run.run o).1), (b.run.run o).2) = _
  rw [h o ho]
  rfl

/-- A step that is taken in one of two ways. -/
theorem ite {p : Prop} [Decidable p] {b c : Build α} {r s : Recorded α}
    (hb : Follows context b r) (hc : Follows context c s) :
    Follows context (if p then b else c) (if p then r else s) := by
  split
  · exact hb
  · exact hc

/-- A step without effects that is not always taken. -/
theorem lift_unless {p : Prop} [Decidable p] {x : Except Failure α}
    {b : Build β} {r : Recorded β}
    (h : Follows context b r) :
    Follows context (if p then b else liftM x >>= fun _ => b)
      (if p then r else liftM x >>= fun _ => r) :=
  .ite h (.bind (.lift x) fun _ _ => h)

/-- A note of an event. -/
theorem log (task level message : String) (extra : Keyed Value) :
    Follows context (Build.log task level message extra)
      (Recorded.log task level message extra) := fun _ _ => rfl

/-- A note of a warning. -/
theorem warn (task message : String) :
    Follows context (Build.warn task message) (Recorded.warn task message) := fun o _ => by
  show (Except.ok (), o.warned task message) = _
  rw [o.warned_eq]
  rfl

/-- The settings are those of the context. -/
theorem settings {s : Settings} (hs : context.settings = .ok s) {f : Settings → Build β}
    {r : Recorded β} (h : Follows context (f s) r) :
    Follows context (Build.settings >>= f) r := fun o ho => by
  have hsettings : Build.settings.run.run o = (.ok s, o) := by
    show (o.context.settings, o) = _
    rw [ho, hs]
  rw [run_bind, hsettings]
  exact h o ho

/-- The settings are looked up first. -/
theorem settings_bind {f : Settings → Build β} {g : Settings → Recorded β}
    (h : ∀ s, context.settings = .ok s → Follows context (f s) (g s)) :
    Follows context (Build.settings >>= f) (liftM context.settings >>= g) := by
  cases hs : context.settings with
  | ok s => exact settings hs (h s hs)
  -- Without settings, there is nothing to run, and nothing is told.
  | error e =>
    intro o ho
    have hsettings : Build.settings.run.run o = (.error e, o) := by
      show (o.context.settings, o) = _
      rw [ho, hs]
    rw [run_bind, hsettings]
    show _ = (Except.error e, o.tell [])
    rw [o.tell_nil]

end Follows

variable {context : Context}

/-- A note whose extra fields come from a caller. -/
theorem logGiven_follows (task level message : String) (extra : Keyed Value) :
    Follows context (logGiven task level message extra)
      (Recorded.logGiven task level message extra) :=
  .ite (.throw _) (.log _ _ _ _)

/-! ### What inputs are bound to -/

/-- What an input is bound to. -/
theorem bound_follows (input : InputSpec) (given : Option α) (literal : String → α)
    (task : String) :
    Follows context (bound input given literal task) (input.bound given literal task) := by
  unfold bound InputSpec.bound
  cases given with
  | some found => exact .pure found
  | none =>
    cases input.default with
    | some text => exact .pure _
    | none => exact .ite (.bind (.warn _ _) fun _ _ => .pure _) (.throw _)

/-- The argument of an input in a task. -/
theorem argument_follows (input : InputSpec) (arguments : Keyed Argument) (task : String) :
    Follows context (argument input arguments task) (input.argument arguments task) :=
  bound_follows _ _ _ _

/-- The text of an input of a whole pipeline. -/
theorem rootText_follows (input : InputSpec) (texts : Keyed String) :
    Follows context (rootText input texts) (input.rootText texts) :=
  bound_follows _ _ _ _

/-- The same step for each item of a list. -/
theorem forM_follows {items : List α} {f : α → Build PUnit} {g : α → Recorded PUnit}
    (h : ∀ a, Follows context (f a) (g a)) : Follows context (items.forM f) (items.forM g) := by
  induction items with
  | nil => exact .pure _
  | cons a rest ih => exact .bind (h a) fun _ _ => ih

/-- The texts that a caller gives for the inputs of a whole pipeline. -/
theorem rootTexts_follows (c : Component) (arguments : Keyed Value) :
    Follows context (rootTexts c arguments) (c.rootTexts arguments) :=
  .bind (forM_follows fun _ => .ite (.pure _) (.warn _ _)) fun _ _ =>
    .bind (.lift _) fun _ _ => .pure _

end Build

/-! ### Registries -/

/-- Steps that take no notes take none one after another. -/
theorem Recorded.notes_bind {x : Recorded α} {f : α → Recorded β} (hx : x.notes = [])
    (hf : ∀ a, (f a).notes = []) : (x >>= f).notes = [] := by
  obtain ⟨notes, result, digested⟩ := x
  obtain rfl : notes = [] := hx
  cases result with
  | ok a => exact hf a
  | error e => rfl

/-- Interning takes no notes. -/
theorem Registry.intern_notes (r : Registry α) (record : α → Value)
    (stem : Except Failure String)
    (part : α) : (r.intern record stem part).notes = [] := by
  refine Recorded.notes_bind rfl fun key => Recorded.notes_bind rfl fun found => ?_
  dsimp only
  split
  · rfl
  · rfl

/-- It is a step that leaves the context alone. -/
theorem Registry.intern_follows {context : Context} (r : Registry α) (record : α → Value)
    (stem : Except Failure String) (part : α) :
    Build.Follows context (liftM (r.intern record stem part).result)
      (r.intern record stem part) :=
  .result (r.intern_notes record stem part)

end PipelineCompiler
