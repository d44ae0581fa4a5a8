import PipelineCompiler.Failure.Basic

namespace PipelineCompiler.Value

/-!
# Mappings given as pairs

Free-form mappings may also be given as a sequence of pairs.

* `pairOf` — the two halves of something with two parts;
* `mappingOf` — a mapping, or a sequence of pairs as one;
* `mappingOrEmpty` — the same, where everything empty is an empty mapping.
-/

/-- The two halves of something with two parts. -/
def pairOf (v : Value) : Except Failure (Value × Value) :=
  let ofParts (parts : List Value) : Except Failure (Value × Value) :=
    match parts with
    | [a, b] => if a.isHashable then .ok (a, b) else .error .illTyped
    | _ => .error (.accident .invalidValue)
  match v.bare with
  | .list items | .tuple items | .set items => ofParts items
  | .map entries => ofParts (entries.map (·.1))
  | .str s => ofParts (s.toList.map fun c => .str c.toString)
  | .bytes octets => ofParts (octets.map fun b => .int b.toNat)
  | _ => .error .illTyped

/-- A mapping from its pairs, one after another. -/
def mappingOfPairs (items : List Value) : Except Failure Entries :=
  items.foldlM (fun entries item => do
    let (key, value) ← pairOf item
    pure (put entries key value)) []

/-- A mapping, or a sequence of pairs as one. -/
def mappingOf (v : Value) : Except Failure Entries :=
  match v.bare with
  | .map entries => .ok entries
  | .list items | .tuple items | .set items => mappingOfPairs items
  | .str s => mappingOfPairs (s.toList.map fun c => .str c.toString)
  | .bytes octets => mappingOfPairs (octets.map fun b => .int b.toNat)
  | _ => .error .illTyped

/-- A mapping, or a sequence of pairs as one.  Everything empty is an empty mapping. -/
def mappingOrEmpty (v : Value) : Except Failure Entries :=
  if v.isTruthy then mappingOf v else .ok []

end PipelineCompiler.Value
