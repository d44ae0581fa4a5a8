namespace PipelineCompiler

/-!
# Keyed entries

A mapping with text keys whose order of first writing is part of its meaning: documents list
their fields, tasks and arguments in it.

* `Keyed α` — the entries, each key at the place where it was first written;
* `Keyed.find?` — the value under a key;
* `Keyed.put` — writes a key: in place when it is there, at the end otherwise;
* `Keyed.find?_put_self`, `Keyed.keys_put` — the two laws that later modules use.
-/

/-- Entries of a mapping with text keys, in the order in which the keys were first written. -/
abbrev Keyed (α : Type u) := List (String × α)

namespace Keyed

variable {α : Type u} {β : Type v}

/-- The value stored under a key. -/
def find? : Keyed α → String → Option α
  | [], _ => none
  | (k, v) :: rest, key => if k = key then some v else find? rest key

/-- Writes a key.  A key that is already there keeps its place and takes the new value. -/
def put : Keyed α → String → α → Keyed α
  | [], key, value => [(key, value)]
  | (k, v) :: rest, key, value =>
    if k = key then (k, value) :: rest else (k, v) :: put rest key value

/-- The keys, in order. -/
def keys (entries : Keyed α) : List String := entries.map (·.1)

/-- The values, in order. -/
def values (entries : Keyed α) : List α := entries.map (·.2)

/-- Whether a key is there. -/
def has (entries : Keyed α) (key : String) : Bool := (find? entries key).isSome

/-- Writes a list of entries one after another: of two entries with one key the later wins,
    at the place of the earlier. -/
def ofList (entries : List (String × α)) : Keyed α :=
  entries.foldl (fun done entry => put done entry.1 entry.2) []

/-- Applies a function to every value. -/
def mapValues (f : α → β) (entries : Keyed α) : Keyed β :=
  entries.map fun entry => (entry.1, f entry.2)

/-- What was written last under a key is found there. -/
theorem find?_put_self (entries : Keyed α) (key : String) (value : α) :
    find? (put entries key value) key = some value := by
  induction entries with
  | nil => simp [put, find?]
  | cons entry rest ih =>
    obtain ⟨k, v⟩ := entry
    by_cases h : k = key <;> simp [put, find?, h, ih]

/-- Writing a key leaves every other key alone. -/
theorem find?_put_of_ne (entries : Keyed α) {key other : String} (value : α)
    (h : other ≠ key) : find? (put entries key value) other = find? entries other := by
  induction entries with
  | nil => simp [put, find?, Ne.symm h]
  | cons entry rest ih =>
    obtain ⟨k, v⟩ := entry
    by_cases hk : k = key
    · subst hk
      simp [put, find?, Ne.symm h]
    · by_cases ho : k = other
      · subst ho
        simp [put, find?, hk]
      · simp [put, find?, hk, ho, ih]

/-- A key is found exactly when it is listed. -/
theorem has_iff_mem_keys (entries : Keyed α) (key : String) :
    has entries key = true ↔ key ∈ keys entries := by
  induction entries with
  | nil => simp [has, find?, keys]
  | cons entry rest ih =>
    obtain ⟨k, v⟩ := entry
    by_cases h : k = key
    · simp [has, find?, keys, h]
    · have h' : key ≠ k := fun e => h e.symm
      simpa [has, find?, keys, h, h'] using ih

/-- Writing a key adds it at the end when it is new and keeps the list of keys otherwise. -/
theorem keys_put (entries : Keyed α) (key : String) (value : α) :
    keys (put entries key value) =
      if key ∈ keys entries then keys entries else keys entries ++ [key] := by
  induction entries with
  | nil => simp [put, keys]
  | cons entry rest ih =>
    obtain ⟨k, v⟩ := entry
    by_cases h : k = key
    · simp [put, keys, h]
    · have h' : key ≠ k := fun e => h e.symm
      simp only [keys] at ih
      by_cases hm : key ∈ rest.map (·.1) <;> simp_all [put, keys]

end Keyed

/-- Adds an element at the end of a list without repetitions. -/
def insertNew [DecidableEq α] (items : List α) (item : α) : List α :=
  if item ∈ items then items else items ++ [item]

end PipelineCompiler
