import PipelineCompiler.Value.Order
import PipelineCompiler.Yaml.Merge
import PipelineCompiler.Yaml.Reader
import PipelineCompiler.Yaml.Scalar

namespace PipelineCompiler.Yaml

/-!
# From nodes to values

Every node stands for one value.  Scalars have their value at once.  Collections are begun empty
and filled later, in the order in which they were begun, so that a collection may be a part of
itself; of two faults the one that is met first in this order is reported.

* `Shape` — what a node stands for, its parts by their places;
* `Assembly` — the nodes, the shapes so far and the collections that wait to be filled;
* `Assembly.begin`, `Assembly.fill`, `Assembly.finish` — how shapes come about;
* `Shape.value`, `unrolled` — the values of shapes;
* `read` — the value of a text.
-/

/-- What a node stands for.  The parts of a collection are given by their places. -/
inductive Shape where
  | leaf (value : Value)
  | list (items : List Nat)
  /-- A list of pairs. -/
  | pairs (entries : List Entry)
  | map (entries : List Entry)
  | set (keys : List Nat)

/-- The empty collection of a type, if it is the type of a collection. -/
def Tag.emptyShape? : Tag → Option Shape
  | .seq => some (.list [])
  | .omap | .pairs => some (.pairs [])
  | .map => some (.map [])
  | .set => some (.set [])
  | _ => none

/-- The shapes of the nodes so far. -/
structure Assembly where
  nodes : Nodes
  shapes : Array (Option Shape)
  /-- Whether moments carry their place. -/
  isShared : Bool
  /-- The collections that are begun and not filled yet, the last one first. -/
  begun : List Nat := []

namespace Assembly

/-- Gives the node at a place a shape. -/
def withShape (a : Assembly) (place : Nat) (shape : Shape) : Assembly :=
  { a with shapes := a.shapes.setIfInBounds place (some shape) }

/-- A scalar with its place, if that tells it from its equals. -/
def placeLeaf (a : Assembly) (place : Nat) (v : Value) : Value :=
  match v with
  | .date _ | .timestamp _ => if a.isShared then .placed place v else v
  | v => v

/-- The value of the scalar at a place; collections have none. -/
def leaf? (a : Assembly) (place : Nat) : Option Value :=
  match a.shapes.getD place none with
  | some (.leaf v) => some v
  | _ => none

/-! ### Beginning -/

/-- Sees to it that the node at a place has a shape. -/
def begin (a : Assembly) (place : Nat) : Except Fault Assembly :=
  if (a.shapes.getD place none).isSome then .ok a
  else
    match (a.nodes.tag place).emptyShape? with
    | some shape => .ok { a.withShape place shape with begun := place :: a.begun }
    | none =>
      (a.nodes.scalarValue place).map fun v => a.withShape place (.leaf (a.placeLeaf place v))

/-- Sees to it that key and value of an entry have shapes.  A key has to be a scalar. -/
def beginEntry (a : Assembly) (entry : Entry) : Except Fault Assembly := do
  let a ← a.begin entry.1
  if (a.leaf? entry.1).isNone then throw .malformed
  a.begin entry.2

/-- Sees to it that both halves of a pair, the only entry of the mapping at a place, have
    shapes. -/
def beginPair (a : Assembly) (place : Nat) : Except Fault Assembly :=
  match a.nodes.content place with
  | .mapping [entry] => do (← a.begin entry.1).begin entry.2
  | _ => .error .malformed

/-! ### Filling -/

/-- Whether two keys are the same key. -/
def sameKey (a : Assembly) (place other : Nat) : Bool :=
  match a.leaf? place, a.leaf? other with
  | some v, some w => v.sameKey w
  | _, _ => false

/-- Writes an entry: in place, with the key first written, when the key is there, at the end
    otherwise. -/
def putEntry (a : Assembly) (entry : Entry) : List Entry → List Entry
  | [] => [entry]
  | (key, value) :: rest =>
    if a.sameKey key entry.1 then (key, entry.2) :: rest
    else (key, value) :: a.putEntry entry rest

/-- The entries of the mapping at a place, each key once, when its merge keys are replaced. -/
def mappingEntries (a : Assembly) (place : Nat) : Except Fault (List Entry × Assembly) := do
  let a := { a with nodes := ← a.nodes.flatten place }
  let entries := a.nodes.entries place
  let a ← entries.foldlM beginEntry a
  pure (entries.foldl (fun done entry => a.putEntry entry done) [], a)

/-- Fills the collection at a place. -/
def fill (a : Assembly) (place : Nat) : Except Fault Assembly := do
  match a.nodes.tag place, a.nodes.content place with
  | .seq, .sequence items =>
    let a ← items.foldlM begin a
    pure (a.withShape place (.list items))
  | .omap, .sequence items | .pairs, .sequence items =>
    let a ← items.foldlM beginPair a
    pure (a.withShape place (.pairs (items.flatMap a.nodes.entries)))
  | .map, .mapping _ =>
    let (entries, a) ← a.mappingEntries place
    pure (a.withShape place (.map entries))
  | .set, .mapping _ =>
    let (entries, a) ← a.mappingEntries place
    pure (a.withShape place (.set (entries.map (·.1))))
  | _, _ => throw .malformed

/-- Fills the collections that were begun, and then those that were begun meanwhile, `rounds`
    times. -/
def finish : (rounds : Nat) → Assembly → Except Fault Assembly
  | 0, a => .ok a
  | rounds + 1, a =>
    if a.begun.isEmpty then .ok a
    else do finish rounds (← a.begun.reverse.foldlM fill { a with begun := [] })

/-- The shapes of the nodes of a document.  Every round fills a collection. -/
def ofDocument (d : Document) : Except Fault Assembly := do
  let a : Assembly :=
    { nodes := d.nodes
      shapes := Array.replicate d.nodes.size none
      isShared := d.hasAliases }
  finish (d.nodes.size + 1) (← a.begin 0)

end Assembly

/-! ### Values -/

/-- The value of a shape, given the values of its parts. -/
def Shape.value (part : Nat → Value) : Shape → Value
  | .leaf v => v
  | .list items => .list (items.map part)
  | .pairs entries => .list (entries.map fun entry => .tuple [part entry.1, part entry.2])
  | .map entries => .map (entries.map fun entry => (part entry.1, part entry.2))
  | .set keys => .set (Value.listed (keys.map part))

/-- The places of the parts of a shape. -/
def Shape.parts : Shape → List Nat
  | .leaf _ => []
  | .list items => items
  | .pairs entries | .map entries => entries.flatMap fun entry => [entry.1, entry.2]
  | .set keys => keys

/-- The value of the node at a place, given the values of its parts.  Where nodes are shared, a
    collection carries its place. -/
def placedValue (isShared : Bool) (values : Array Value) (place : Nat) : Shape → Value
  | .leaf v => v
  | shape =>
    let v := shape.value fun part => values.getD part .endless
    if isShared then .placed place v else v

/-- Unrolls every collection once more, those behind it first. -/
def unrollOnce (a : Assembly) (values : Array Value) : Array Value :=
  (List.range a.shapes.size).reverse.foldl (fun values place =>
    match a.shapes.getD place none with
    | some shape => values.setIfInBounds place (placedValue a.isShared values place shape)
    | none => values) values

/-- How many collections have a part that does not stand behind them. -/
def returnCount (a : Assembly) : Nat :=
  (List.range a.shapes.size).countP fun place =>
    ((a.shapes.getD place none).map Shape.parts).any fun parts => parts.any (· ≤ place)

/-- How often a document is unrolled.  A way that meets no collection twice goes back once from
    each of them at most; in a document that contains itself, longer ways are taken too. -/
def unrollings (d : Document) (a : Assembly) : Nat :=
  (returnCount a + 1) * (if d.isKnotted then 16 else 1)

/-- The values of all nodes. -/
def unrolled (d : Document) (a : Assembly) : Array Value :=
  let start := a.shapes.map fun
    | some (.leaf v) => v
    | _ => .endless
  (List.range (unrollings d a)).foldl (fun values _ => unrollOnce a values) start

/-- The value of a text.  A text without a document is null. -/
def read (text : String) : Except Fault Value := do
  match ← Document.ofText? text with
  | none => pure .null
  | some d =>
    let a ← Assembly.ofDocument d
    pure ((unrolled d a).getD 0 .null)

end PipelineCompiler.Yaml
