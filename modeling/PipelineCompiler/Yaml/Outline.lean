import PipelineCompiler.Keyed
import PipelineCompiler.Value.Basic

namespace PipelineCompiler.Yaml

/-!
# Outlines

Before a value is written it is laid out.  What is met at one place several times is written once,
under an anchor, and named by an alias from then on; so a value that contains itself has an
outline, too.

* `Outline` — scalars, sequences and mappings with their anchors, and aliases;
* `meet` — the places that are met again, in the order in which that happens;
* `Outline.ofValue` — the outline of a value;
* `Outline.depth` — how deep its parts lie, which is limited.
-/

/-- A value as it is written. -/
inductive Outline where
  | alias (name : String)
  | scalar (anchor : Option String) (value : Value)
  | sequence (anchor : Option String) (items : List Outline)
  /-- The members of a set are keys without values. -/
  | mapping (anchor : Option String) (isSet : Bool) (entries : List (Outline × Outline))
deriving Inhabited

/-! ### Places that are met again -/

/-- The places met so far, and those that were met again, in the order in which that happened. -/
structure Encounters where
  met : List Nat := []
  again : List Nat := []

/-- Whether a value is written under an anchor when it is met again.  Numbers are just repeated. -/
def isAnchored : Value → Bool
  | .float _ => false
  | _ => true

mutual

/-- Meets a value and everything in it. -/
def meet (e : Encounters) : Value → Encounters
  | .placed place v =>
    if !isAnchored v then e
    else if place ∈ e.met then { e with again := insertNew e.again place }
    else meet { e with met := place :: e.met } v
  | .list items | .tuple items | .set items => meetItems e items
  | .map entries => meetEntries e entries
  | _ => e

/-- Meets the items of a list. -/
def meetItems (e : Encounters) : List Value → Encounters
  | [] => e
  | item :: rest => meetItems (meet e item) rest

/-- Meets the keys and values of a mapping. -/
def meetEntries (e : Encounters) : List (Value × Value) → Encounters
  | [] => e
  | (key, value) :: rest => meetEntries (meet (meet e key) value) rest

end

/-! ### Outlines -/

namespace Outline

/-- The name of the anchor with a number. -/
def anchorName (number : Nat) : String :=
  let digits := toString number
  "id" ++ "".pushn '0' (3 - digits.length) ++ digits

/-- The name of the anchor of a place, when the places `again` are met again. -/
def nameOf? (again : List Nat) (place : Nat) : Option String :=
  (again.idxOf? place).map fun index => anchorName (index + 1)

/-- An outline under an anchor. -/
def withAnchor (anchor : Option String) : Outline → Outline
  | .scalar _ v => .scalar anchor v
  | .sequence _ items => .sequence anchor items
  | .mapping _ isSet entries => .mapping anchor isSet entries
  | .alias name => .alias name

mutual

/-- The outline of a value, and the places written so far, behind those `written` before. -/
def ofValueAfter (again written : List Nat) : Value → Outline × List Nat
  | .placed place v =>
    if !isAnchored v then (.scalar none v, written)
    else if place ∈ written then (.alias ((nameOf? again place).getD ""), written)
    else
      let (outline, written) := ofValueAfter again (place :: written) v
      (outline.withAnchor (nameOf? again place), written)
  | .list items | .tuple items =>
    let (items, written) := ofItems again written items
    (.sequence none items, written)
  | .set items =>
    let (items, written) := ofItems again written items
    (.mapping none true (items.map fun item => (item, .scalar none .null)), written)
  | .map entries =>
    let (entries, written) := ofEntries again written entries
    (.mapping none false entries, written)
  | v => (.scalar none v, written)

/-- The outlines of the items of a list. -/
def ofItems (again written : List Nat) : List Value → List Outline × List Nat
  | [] => ([], written)
  | item :: rest =>
    let (item, written) := ofValueAfter again written item
    let (rest, written) := ofItems again written rest
    (item :: rest, written)

/-- The outlines of the keys and values of a mapping. -/
def ofEntries (again written : List Nat) :
    List (Value × Value) → List (Outline × Outline) × List Nat
  | [] => ([], written)
  | (key, value) :: rest =>
    let (key, written) := ofValueAfter again written key
    let (value, written) := ofValueAfter again written value
    let (rest, written) := ofEntries again written rest
    ((key, value) :: rest, written)

end

/-- The outline of a value. -/
def ofValue (v : Value) : Outline := (ofValueAfter (meet {} v).again [] v).1

/-! ### Depth -/

mutual

/-- How many sequences and mappings lie inside one another. -/
def depth : Outline → Nat
  | .alias _ | .scalar _ _ => 0
  | .sequence _ items => depthOfItems items + 1
  | .mapping _ _ entries => depthOfEntries entries + 1

/-- How many of them lie inside one another in the items of a sequence. -/
def depthOfItems : List Outline → Nat
  | [] => 0
  | item :: rest => max (depth item) (depthOfItems rest)

/-- How many of them lie inside one another in the keys and values of a mapping. -/
def depthOfEntries : List (Outline × Outline) → Nat
  | [] => 0
  | (key, value) :: rest => max (max (depth key) (depth value)) (depthOfEntries rest)

end

/-- How many sequences and mappings may lie inside one another in a document that is written. -/
def depthLimit : Nat := 329

end Outline
end PipelineCompiler.Yaml
