import PipelineCompiler.Text.Half
import PipelineCompiler.Value.Basic

namespace PipelineCompiler.Value

/-!
# The order of values

Values of one kind can be put in order: numbers by size, texts by code point, moments by time.
Values of different kinds cannot.

* `less?` — whether one value stands before another, when they can be compared;
* `sortOn?` — sorts a list by the values of its elements, keeping equal ones in place; there is
  no answer when two of them cannot be compared;
* `arranged?` — the order in which keys are listed, which a NaN among them disturbs;
* `listed` — the order in which the members of a set are listed.
-/

/-- A number for comparison: a quotient, or beyond all quotients, or not a number. -/
inductive Size where
  | ratio (numerator : Int) (denominator : Nat)
  | infinite (negative : Bool)
  | undefined

/-- The size of a number. -/
def size? (v : Value) : Option Size :=
  match v.bare with
  | .bool b => some (.ratio (if b then 1 else 0) 1)
  | .int i => some (.ratio i 1)
  | .float x =>
    if x.isNaN then some .undefined
    else if x.isInf then some (.infinite (x < 0))
    else
      let p := Number.Parts.ofFloat x
      let magnitude : Int := (p.mantissa * Nat.pow 2 p.exponent.toNat : Nat)
      some (.ratio (if p.negative then -magnitude else magnitude) (Nat.pow 2 (-p.exponent).toNat))
  | _ => none

/-- Whether a number is smaller than another. -/
def Size.less : Size → Size → Bool
  | .undefined, _ | _, .undefined => false
  | .infinite a, .infinite b => a && !b
  | .infinite a, .ratio _ _ => a
  | .ratio _ _, .infinite b => !b
  | .ratio n d, .ratio m e => n * e < m * d

/-- Whether a value stands before another, if they can be compared. -/
def less? (a b : Value) : Option Bool :=
  match a.size?, b.size? with
  | some x, some y => some (x.less y)
  | _, _ =>
    match a.bare, b.bare with
    | .str s, .str t => some (Text.codes s < Text.codes t)
    | .bytes s, .bytes t => some (s.map UInt8.toNat < t.map UInt8.toNat)
    | .date s, .date t => some (s.ordinal < t.ordinal)
    | .timestamp s, .timestamp t =>
      if s.offset.isSome = t.offset.isSome then some (s.instant < t.instant) else none
    | _, _ => none

variable {α : Type}

/-- Puts an element into a sorted list, behind its equals. -/
def insertOn? (key : α → Value) (x : α) : List α → Option (List α)
  | [] => some [x]
  | y :: rest => do
    if ← less? (key x) (key y) then pure (x :: y :: rest)
    else
      let rest ← insertOn? key x rest
      pure (y :: rest)

/-- Sorts by the values of the elements. -/
def sortOn? (key : α → Value) (xs : List α) : Option (List α) :=
  xs.foldlM (fun sorted x => insertOn? key x sorted) []

/-! ### Lists of keys

A NaN is neither smaller nor greater than anything, so that a list with one has no order.  What
becomes of it depends on the comparisons that are made: keys are kept or turned around as long as
they ascend or descend from the start, and each of the others is put in by halving. -/

/-- How many keys follow one another, each smaller than the one before (`descending`), or none
    smaller than the one before, behind `previous`. -/
def runLength? (descending : Bool) (previous : Value) : List Value → Option Nat
  | [] => some 0
  | v :: rest => do
    if (← less? v previous) == descending then pure ((← runLength? descending v rest) + 1)
    else pure 0

/-- The keys at the start that already ascend, in order, and the other keys. -/
def firstRun? : List Value → Option (List Value × List Value)
  | [] => some ([], [])
  | [v] => some ([v], [])
  | v :: w :: rest => do
    let descending ← less? w v
    let count := (← runLength? descending w rest) + 2
    let run := (v :: w :: rest).take count
    pure (if descending then run.reverse else run, (v :: w :: rest).drop count)

/-- The place of a key among the keys from `low` up to `high`, found by halving. -/
def placeBetween? (sorted : Array Value) (v : Value) : (fuel low high : Nat) → Option Nat
  | 0, low, _ => some low
  | fuel + 1, low, high =>
    if low < high then do
      let middle := (low + high) / 2
      if ← less? v (sorted.getD middle .null) then placeBetween? sorted v fuel low middle
      else placeBetween? sorted v fuel (middle + 1) high
    else some low

/-- Puts a key into a list of keys. -/
def putBetween? (sorted : Array Value) (v : Value) : Option (Array Value) := do
  let place ← placeBetween? sorted v (sorted.size + 1) 0 sorted.size
  pure (sorted.insertIdxIfInBounds place v)

/-- The order in which keys are listed. -/
def arranged? (keys : List Value) : Option (List Value) := do
  let (run, others) ← firstRun? keys
  let sorted ← others.foldlM putBetween? run.toArray
  pure sorted.toList

/-! ### Sets

A set has places for its members, whose count is a power of two.  Whole numbers are listed by
their places, and other members in the order in which they came. -/

/-- How many places a set of some members has. -/
def placesFor (count : Nat) : Nat := if count < 5 then 8 else Nat.pow 2 (Nat.log2 (2 * count) + 1)

/-- The place of a whole number: its remainder by the count of places, after that by a prime. -/
def placeIn? (places : Nat) : Value → Option Nat
  | .bool b => some (if b then 1 else 0)
  | .int i =>
    let reduced := i.tmod (Nat.pow 2 61 - 1 : Nat)
    some ((if reduced = -1 then -2 else reduced) % (places : Int)).toNat
  | _ => none

/-- The members of a set in the order in which they are listed. -/
def listed (members : List Value) : List Value :=
  let places := placesFor members.length
  match members.mapM fun v => (placeIn? places v).map fun place => (place, v) with
  | some pairs => (pairs.mergeSort fun a b => a.1 ≤ b.1).map (·.2)
  | none => members

end PipelineCompiler.Value
