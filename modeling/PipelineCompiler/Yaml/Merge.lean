import PipelineCompiler.Yaml.Node

namespace PipelineCompiler.Yaml

/-!
# Merge keys

A key `<<` brings the entries of its value, a mapping or a sequence of mappings, into the mapping
around it.  They stand before the entries of that mapping, those of the last mapping of a sequence
first, so that the entries of the mapping itself and the first mappings win.

Mappings are shared, and change for all that share them: a mapping whose entries are brought
somewhere has its own merge keys replaced first.

* `Nodes.takeMerge?` — takes a merge key out;
* `Nodes.merged` — replaces the merge keys of a mapping;
* `Nodes.flatten` — the same with enough fuel.
-/

namespace Nodes

/-- Takes the first merge key of the mapping at a place out: the place of its value, and the nodes
    without it. -/
def takeMerge? (nodes : Nodes) (place : Nat) : Option (Nat × Nodes) :=
  let entries := nodes.entries place
  let isOther (entry : Entry) : Bool := nodes.tag entry.1 != .merge
  match entries.dropWhile isOther with
  | [] => none
  | merge :: rest =>
    some (merge.2, nodes.withEntries place (entries.takeWhile isOther ++ rest))

/-- Takes the key `=` at a place for an ordinary text. -/
def asText (nodes : Nodes) (place : Nat) : Nodes :=
  if nodes.tag place == .value then nodes.withTag place .str else nodes

/-- Puts entries before those of the mapping at a place, in which the key `=` is an ordinary text
    from now on. -/
def prepend (nodes : Nodes) (place : Nat) (brought : List Entry) : Nodes :=
  let own := nodes.entries place
  let nodes := own.foldl (fun nodes entry => nodes.asText entry.1) nodes
  if brought.isEmpty then nodes else nodes.withEntries place (brought ++ own)

mutual

/-- Replaces the merge keys of the mapping at a place; `brought` are the entries that came so
    far. -/
def merged : (fuel : Nat) → (place : Nat) → (brought : List Entry) → Nodes →
    Except Fault Nodes
  | 0, _, _, _ => .error .illTyped
  | fuel + 1, place, brought, nodes =>
    match nodes.takeMerge? place with
    | none => .ok (nodes.prepend place brought)
    | some (source, nodes) => do
      let (found, nodes) ← broughtBy fuel source nodes
      merged fuel place (brought ++ found) nodes

/-- The entries that the value of a merge key brings. -/
def broughtBy : (fuel : Nat) → (source : Nat) → Nodes → Except Fault (List Entry × Nodes)
  | 0, _, _ => .error .illTyped
  | fuel + 1, source, nodes =>
    match nodes.content source with
    | .mapping _ => broughtByOne fuel source nodes
    | .sequence items => broughtByAll fuel items nodes
    | .scalar _ => .error .malformed

/-- The entries of a mapping, when its merge keys are replaced. -/
def broughtByOne : (fuel : Nat) → (source : Nat) → Nodes → Except Fault (List Entry × Nodes)
  | 0, _, _ => .error .illTyped
  | fuel + 1, source, nodes =>
    match nodes.content source with
    | .mapping _ => do
      let nodes ← merged fuel source [] nodes
      pure (nodes.entries source, nodes)
    | _ => .error .malformed

/-- The entries of several mappings, the last mapping first. -/
def broughtByAll : (fuel : Nat) → List Nat → Nodes → Except Fault (List Entry × Nodes)
  | _, [], nodes => .ok ([], nodes)
  | 0, _, _ => .error .illTyped
  | fuel + 1, source :: rest, nodes => do
    let (found, nodes) ← broughtByOne fuel source nodes
    let (others, nodes) ← broughtByAll fuel rest nodes
    pure (others ++ found, nodes)

end

/-- How many parts the nodes have. -/
def partCount (nodes : Nodes) : Nat :=
  nodes.foldl (fun sum node =>
    match node.content with
    | .scalar _ => sum
    | .sequence items => sum + items.length
    | .mapping entries => sum + entries.length) 0

/-- Replaces the merge keys of the mapping at a place.  Every merge key is taken out once and
    looks through one sequence at most, which bounds the steps that follow one another. -/
def flatten (nodes : Nodes) (place : Nat) : Except Fault Nodes :=
  if (nodes.takeMerge? place).isNone then .ok (nodes.prepend place [])
  else
    let count := nodes.partCount + 4
    nodes.merged (count * count) place []

end Nodes
end PipelineCompiler.Yaml
