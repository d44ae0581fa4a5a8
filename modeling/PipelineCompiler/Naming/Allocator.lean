import PipelineCompiler.Canonical
import PipelineCompiler.Keyed
import PipelineCompiler.Naming.Policy

namespace PipelineCompiler

/-!
# Allocating names

Every scope of names has an allocator.  A record that equals an earlier one, its name aside, gets
the name of the earlier one; every other record, and every reservation, gets a new name.

* `NameAllocator` — the names given so far, and the names of records by structural key;
* `freeName` — the sanitized stem, or the stem with the least free number from two on;
* `NameAllocator.reserve`, `NameAllocator.allocate` — the two ways to get a name.
-/

/-- The names of a scope. -/
structure NameAllocator where
  policy : NamePolicy
  /-- The field of a record that holds its name. -/
  nameField : Option String := some "name"
  /-- The names, in the order in which they were given. -/
  used : List String := []
  /-- The names of records, by structural key. -/
  byKey : Keyed String := []

/-- The first of the names numbered `index`, `index + 1`, … that is not used; `fuel` of them are
    tried. -/
def firstFree (used : List String) (numbered : Nat → String) : (fuel index : Nat) → String
  | 0, index => numbered index
  | fuel + 1, index =>
    if numbered index ∈ used then firstFree used numbered fuel (index + 1) else numbered index

/-- How many numbers are tried.  Names with equally long numbers differ, and there are ever more
    of them than used names by then. -/
def searchBound (count : Nat) : Nat := 100 * (count + 1)

/-- A name for a stem that is not used: the sanitized stem, or the stem with the least free
    number from two on.  Where names have no length, there is no number. -/
def freeName (p : NamePolicy) (used : List String) (stem : String) : Except Failure String :=
  let base := p.sanitize stem
  if base ∈ used then
    match p.maxLength with
    | some limit =>
      .ok (firstFree used (fun n => p.numbered limit base n) (searchBound used.length) 2)
    | none => .error .illTyped
  else .ok base

namespace NameAllocator

/-- Gives a new name. -/
def reserve (a : NameAllocator) (stem : String) : Except Failure (String × NameAllocator) := do
  let name ← freeName a.policy a.used stem
  pure (name, { a with used := a.used ++ [name] })

/-- Gives the name of the record with a key, or a new name.  The stem is asked for in the second
    case only. -/
def allocateFor (a : NameAllocator) (stem : Except Failure String) (key : String) :
    Except Failure (String × NameAllocator) := do
  match Keyed.find? a.byKey key with
  | some name => pure (name, a)
  | none =>
    let (name, a) ← a.reserve (← stem)
    pure (name, { a with byKey := a.byKey ++ [(key, name)] })

/-- Gives the name of an equal record, or a new name. -/
def allocate (a : NameAllocator) (stem : Except Failure String) (record : Value) :
    Except Failure (String × NameAllocator) := do
  let key ← structuralKey a.nameField record
  a.allocateFor stem key

end NameAllocator
end PipelineCompiler
