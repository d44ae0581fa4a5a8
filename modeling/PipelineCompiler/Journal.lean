import PipelineCompiler.Digest.Sha256
import PipelineCompiler.Failure.Basic

namespace PipelineCompiler

/-!
# Journals

A compilation leaves a journal of what it did, also when it fails in the end.

* `Note`, `Note.event` — an entry of a journal, and the event it is for observers;
* `warningsOf` — the warnings of a journal, by task;
* `Recorded` — a result with the notes that were taken on the way to it; notes are only ever
  added, and no computation can look at the notes of another;
* `Recorded.log`, `Recorded.warn`, `Recorded.within` — take a note, attribute a failure to a task;
* `Recorded.digest` — the digest of a text, which keeps the text.
-/

/-! ### Notes -/

/-- What stands for the task in notes that belong to no task. -/
def rootTask : String := "<root>"

/-- An entry of a journal.  Without a task the id is empty. -/
inductive Note where
  | event (task level message : String) (extra : Keyed Value)
  | warning (task message : String)

/-- The id under which notes on a task are kept. -/
def taskKey (task : String) : String := if task.isEmpty then rootTask else task

/-- An event as fields; extra fields may replace the others. -/
def eventFields (target task level message : String) (extra : Keyed Value) : Keyed Value :=
  extra.foldl (fun fields entry => Keyed.put fields entry.1 entry.2)
    [("target", .str target), ("task_id", .str (taskKey task)), ("level", .str level),
      ("message", .str message)]

/-- The event that a note is for the observers of a target. -/
def Note.eventFor (target : String) : Note → Keyed Value
  | .event task level message extra => eventFields target task level message extra
  | .warning task message => eventFields target task "WARNING" message []

/-- Adds a note to the warnings by task, if it is one. -/
def Note.addTo (warnings : Keyed (List String)) : Note → Keyed (List String)
  | .event _ _ _ _ => warnings
  | .warning task message =>
    let key := taskKey task
    Keyed.put warnings key ((Keyed.find? warnings key).getD [] ++ [message])

/-- The warnings of a journal, by task. -/
def warningsOf (journal : List Note) : Keyed (List String) := journal.foldl Note.addTo []

/-! ### Results with notes -/

/-- A result, or the failure to get one, and the notes taken on the way. -/
structure Recorded (α : Type) where
  notes : List Note
  result : Except Failure α
  /-- The texts whose digests were taken on the way.  They are what a statement has to be about
      that rests on digests being different. -/
  digested : List String := []

namespace Recorded

/-- A result without notes. -/
def ofExcept (result : Except Failure α) : Recorded α := { notes := [], result }

/-- Goes on with a result; the notes of both parts are kept, and a failure ends it. -/
def andThen (x : Recorded α) (f : α → Recorded β) : Recorded β :=
  match x.result with
  | .ok a =>
    { notes := x.notes ++ (f a).notes
      result := (f a).result
      digested := x.digested ++ (f a).digested }
  | .error e => { notes := x.notes, result := .error e, digested := x.digested }

instance : Monad Recorded where
  pure a := ofExcept (.ok a)
  bind := andThen

instance : MonadLift (Except Failure) Recorded := ⟨ofExcept⟩

instance : MonadExcept Failure Recorded where
  throw e := ofExcept (.error e)
  tryCatch x handle :=
    match x.result with
    | .ok _ => x
    | .error e =>
      { notes := x.notes ++ (handle e).notes
        result := (handle e).result
        digested := x.digested ++ (handle e).digested }

/-- Takes a note of an event. -/
def log (task level message : String) (extra : Keyed Value := []) : Recorded Unit :=
  { notes := [.event task level message extra], result := .ok () }

/-- Takes a note of an event whose extra fields come from a caller.  They may not be named like
    the parts of the note or like the journal itself. -/
def logGiven (task level message : String) (extra : Keyed Value) : Recorded Unit :=
  if (Keyed.keys extra).any fun name => name ∈ ["self", "task_id", "level", "message"] then
    throw .illTyped
  else log task level message extra

/-- Takes a note of a warning. -/
def warn (task message : String) : Recorded Unit :=
  { notes := [.warning task message], result := .ok () }

/-- The digest of a text, if there is a text. -/
def digest (text : Except Failure String) : Recorded String :=
  { notes := [], result := text.map Digest.sha256Hex, digested := text.toOption.toList }

/-- Attributes a compilation error to a task. -/
def within (taskId : String) (x : Recorded α) : Recorded α :=
  { x with result := withinTask taskId x.result }

/-- The notes of both parts follow one another. -/
theorem bind_notes_of_ok {x : Recorded α} {f : α → Recorded β} {a : α}
    (h : x.result = .ok a) :
    (x >>= f).notes = x.notes ++ (f a).notes := by
  simp [bind, andThen, h]

instance : LawfulMonad Recorded := by
  refine LawfulMonad.mk' _ (fun x => ?_) (fun a f => ?_) (fun x f g => ?_)
  · rcases x with ⟨notes, _ | a⟩ <;> simp [Functor.map, andThen, ofExcept]
  · simp [bind, pure, andThen, ofExcept]
  · rcases x with ⟨notes, _ | a⟩
    · simp [bind, andThen]
    · rcases h : f a with ⟨more, _ | b⟩ <;> simp [bind, andThen, h]

end Recorded
end PipelineCompiler
