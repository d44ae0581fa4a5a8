import Mathlib.Algebra.BigOperators.Group.List.Basic
import Mathlib.Algebra.Order.BigOperators.Group.List
import PipelineCompiler.Proofs.Component.Fields
import PipelineCompiler.Proofs.Success
import PipelineCompiler.Proofs.Yaml.Reader
import PipelineCompiler.Source

namespace PipelineCompiler

/-!
# The texts in a value that is read

Whatever text is in the value of a YAML document stands in the document, as a scalar of its own.
Only the text without characters need not stand there.

* `Value.Contains`, `contains_of_under?` — the texts in a value, keys of mappings among them;
* `Yaml.Assembly.Within` — the texts of nodes and shapes have a property;
* `Yaml.textsIn_read` — the texts in the value of a document are texts of its tokens;
* `Yaml.length_add_length_le_of_read` — two different texts are no longer than the document.
-/

/-! ### Texts in values -/

/-- A text is in a value: it is the value, a key of a mapping, or in a part of the value. -/
inductive Value.Contains (s : String) : Value → Prop
  | str : Contains s (.str s)
  | item {items : List Value} {v : Value} (mem : v ∈ items) (contains : Contains s v) :
      Contains s (.list items)
  | half {items : List Value} {v : Value} (mem : v ∈ items) (contains : Contains s v) :
      Contains s (.tuple items)
  | member {items : List Value} {v : Value} (mem : v ∈ items) (contains : Contains s v) :
      Contains s (.set items)
  | key {entries : Value.Entries} {entry : Value × Value} (mem : entry ∈ entries)
      (contains : Contains s entry.1) : Contains s (.map entries)
  | value {entries : Value.Entries} {entry : Value × Value} (mem : entry ∈ entries)
      (contains : Contains s entry.2) : Contains s (.map entries)
  | placed {place : Nat} {v : Value} (contains : Contains s v) : Contains s (.placed place v)

namespace Value

variable {s : String}

/-- A value contains what it contains without its place. -/
theorem Contains.of_bare {v : Value} (h : v.bare.Contains s) : v.Contains s := by
  induction v using Value.bare.induct with
  | case1 place v ih => exact .placed (ih h)
  | case2 v hplaced =>
    rwa [Value.bare] at h
    exact hplaced

/-- A field is an entry under its name. -/
theorem mem_of_field?_eq_some {fields : Entries} {name : String} {v : Value}
    (h : field? fields name = some v) : (.str name, v) ∈ fields := by
  fun_induction field? fields name with
  | case1 => cases h
  | case2 => exact Option.some.inj h ▸ List.mem_cons_self
  | case3 _ _ _ _ _ ih => exact List.mem_cons_of_mem _ (ih h)
  | case4 _ _ _ _ _ ih => exact List.mem_cons_of_mem _ (ih h)

/-- What stands under a chain of fields is contained, and so are their names. -/
theorem contains_of_under? {v w : Value} {names : List String} (h : v.under? names = some w) :
    (w.Contains s → v.Contains s) ∧ (s ∈ names → v.Contains s) := by
  -- By induction on the names of the fields.
  induction names generalizing v with
  | nil =>
    obtain rfl := Option.some.inj h
    exact ⟨id, fun hnever => absurd hnever List.not_mem_nil⟩
  | cons name rest ih =>
    rw [under?] at h
    split at h
    next fields hbare =>
      obtain ⟨found, hfound, hrest⟩ := Option.bind_eq_some_iff.mp h
      have hmem := mem_of_field?_eq_some hfound
      have hfields : ∀ {s}, (Value.map fields).Contains s → v.Contains s := fun h =>
        .of_bare (hbare ▸ h)
      obtain ⟨hvalue, hname⟩ := ih hrest
      refine ⟨fun hw => hfields (.value hmem (hvalue hw)), fun hs => ?_⟩
      rcases List.mem_cons.mp hs with rfl | hs
      · exact hfields (.key hmem .str)
      · exact hfields (.value hmem (hname hs))
    next => cases h

/-- The texts in a value have a property. -/
def TextsIn (p : String → Prop) (v : Value) : Prop := ∀ s, v.Contains s → p s

end Value

namespace Yaml

variable {p : String → Prop}

/-! ### Nodes -/

/-- The texts of nodes have a property. -/
def Nodes.TextsIn (p : String → Prop) (nodes : Nodes) : Prop := ∀ n ∈ nodes, n.TextIn p

namespace Nodes

variable {nodes nodes' : Nodes}

section Nodes

variable (hempty : p "")

include hempty

/-- A node at a place. -/
theorem TextsIn.node (h : nodes.TextsIn p) (place : Nat) : (nodes.node place).TextIn p := by
  rw [Nodes.node, Array.getD_eq_getD_getElem?]
  cases hget : nodes[place]? with
  | none => exact fun _ hscalar => Content.scalar.inj hscalar ▸ hempty
  | some n => exact h n (Array.mem_of_getElem? hget)

/-- A node gets another type. -/
theorem TextsIn.withTag (h : nodes.TextsIn p) (place : Nat) (tag : Tag) :
    (nodes.withTag place tag).TextsIn p := fun n hn => by
  rcases Array.mem_or_eq_of_mem_setIfInBounds hn with hn | rfl
  · exact h n hn
  · exact h.node hempty place

omit hempty

/-- A mapping gets other entries. -/
theorem TextsIn.withEntries (h : nodes.TextsIn p) (place : Nat) (entries : List Entry) :
    (nodes.withEntries place entries).TextsIn p := fun n hn => by
  rcases Array.mem_or_eq_of_mem_setIfInBounds hn with hn | rfl
  · exact h n hn
  · exact fun _ hscalar => nomatch hscalar

/-- A merge key is taken out. -/
theorem TextsIn.takeMerge? (h : nodes.TextsIn p) {place source : Nat}
    (htake : nodes.takeMerge? place = some (source, nodes')) : nodes'.TextsIn p := by
  unfold Nodes.takeMerge? at htake
  dsimp only at htake
  split at htake
  · cases htake
  · obtain ⟨-, rfl⟩ := Prod.mk.inj (Option.some.inj htake)
    exact h.withEntries _ _

include hempty

/-- Entries are put before others. -/
theorem TextsIn.prepend (h : nodes.TextsIn p) (place : Nat) (brought : List Entry) :
    (nodes.prepend place brought).TextsIn p := by
  have hkeys : ∀ (own : List Entry) (nodes : Nodes), nodes.TextsIn p →
      (own.foldl (fun nodes entry => nodes.asText entry.1) nodes).TextsIn p := by
    intro own
    -- By induction on the entries that are put in front.
    induction own with
    | nil => exact fun _ h => h
    | cons entry rest ih =>
      refine fun nodes h => ih _ ?_
      dsimp only [Nodes.asText]
      split
      · exact h.withTag hempty _ _
      · exact h
  unfold Nodes.prepend
  dsimp only
  split
  · exact hkeys _ _ h
  · exact (hkeys _ _ h).withEntries _ _

/-- Merge keys are replaced, one mapping after another. -/
theorem textsIn_merged (fuel : Nat) :
    (∀ place brought nodes nodes', Nodes.TextsIn p nodes →
      Nodes.merged fuel place brought nodes = .ok nodes' → nodes'.TextsIn p) ∧
    (∀ source nodes entries nodes', Nodes.TextsIn p nodes →
      Nodes.broughtBy fuel source nodes = .ok (entries, nodes') → nodes'.TextsIn p) ∧
    (∀ source nodes entries nodes', Nodes.TextsIn p nodes →
      Nodes.broughtByOne fuel source nodes = .ok (entries, nodes') → nodes'.TextsIn p) ∧
    ∀ sources nodes entries nodes', Nodes.TextsIn p nodes →
      Nodes.broughtByAll fuel sources nodes = .ok (entries, nodes') → nodes'.TextsIn p := by
  have hnone : ∀ fuel nodes entries nodes', Nodes.TextsIn p nodes →
      Nodes.broughtByAll fuel [] nodes = .ok (entries, nodes') → nodes'.TextsIn p := by
    intro fuel nodes entries nodes' h hread
    rw [Nodes.broughtByAll] at hread
    exact (Prod.mk.inj (Except.ok.inj hread)).2 ▸ h
  -- By induction on the fuel, for the four functions at once.
  induction fuel with
  | zero =>
    refine ⟨fun _ _ _ _ _ h => (nomatch h), fun _ _ _ _ _ h => (nomatch h),
      fun _ _ _ _ _ h => (nomatch h), fun sources nodes entries nodes' h hread => ?_⟩
    cases sources with
    | nil => exact hnone 0 _ _ _ h hread
    | cons source rest => cases hread
  | succ fuel ih =>
    obtain ⟨hmerged, hby, hone, hall⟩ := ih
    refine ⟨fun place brought nodes nodes' h hread => ?merged,
      fun source nodes entries nodes' h hread => ?source,
      fun source nodes entries nodes' h hread => ?one,
      fun sources nodes entries nodes' h hread => ?all⟩
    case merged =>
      rw [Nodes.merged] at hread
      split at hread
      · exact Except.ok.inj hread ▸ h.prepend hempty _ _
      next source taken htake =>
        obtain ⟨⟨found, nodes₁⟩, hfound, hread⟩ := bind_eq_ok.mp hread
        exact hmerged _ _ _ _ (hby _ _ _ _ (h.takeMerge? htake) hfound) hread
    case source =>
      rw [Nodes.broughtBy] at hread
      split at hread
      · exact hone _ _ _ _ h hread
      · exact hall _ _ _ _ h hread
      · cases hread
    case one =>
      rw [Nodes.broughtByOne] at hread
      split at hread
      · obtain ⟨nodes₁, hmerge, hread⟩ := bind_eq_ok.mp hread
        obtain ⟨-, rfl⟩ := Prod.mk.inj (Except.ok.inj hread)
        exact hmerged _ _ _ _ h hmerge
      · cases hread
    case all =>
      cases sources with
      | nil => exact hnone (fuel + 1) _ _ _ h hread
      | cons source rest =>
        rw [Nodes.broughtByAll] at hread
        obtain ⟨⟨found, nodes₁⟩, hfound, hread⟩ := bind_eq_ok.mp hread
        obtain ⟨⟨others, nodes₂⟩, hothers, hread⟩ := bind_eq_ok.mp hread
        obtain ⟨-, rfl⟩ := Prod.mk.inj (Except.ok.inj hread)
        exact hall _ _ _ _ (hone _ _ _ _ h hfound) hothers

/-- The merge keys of a mapping are replaced. -/
theorem TextsIn.flatten (h : nodes.TextsIn p) {place : Nat}
    (hread : nodes.flatten place = .ok nodes') : nodes'.TextsIn p := by
  unfold Nodes.flatten at hread
  split at hread
  · exact Except.ok.inj hread ▸ h.prepend hempty _ _
  · exact (textsIn_merged hempty _).1 _ _ _ _ h hread

/-- The text of a scalar. -/
theorem TextsIn.text (h : nodes.TextsIn p) {fuel place : Nat} {text : String}
    (hread : nodes.text fuel place = .ok text) : p text := by
  induction fuel generalizing place with
  | zero => cases hread
  | succ fuel ih =>
    rw [Nodes.text] at hread
    split at hread
    next hscalar => exact Except.ok.inj hread ▸ h.node hempty place _ hscalar
    · cases hread
    · split at hread
      · exact ih hread
      · cases hread

end Nodes

/-- A scalar that is no text. -/
theorem textsIn_computed (place : Nat) (x : Float) : (computed place x).TextsIn p := by
  unfold computed
  split
  · exact fun _ h => by cases h with | placed h => cases h
  · exact fun _ h => nomatch h

/-- A number contains no text. -/
theorem textsIn_decimalValue {place : Nat} {text : String} {v : Value}
    (hread : decimalValue place text = .ok v) : v.TextsIn p := by
  unfold decimalValue at hread
  obtain ⟨⟨negative, cs⟩, -, hread⟩ := bind_eq_ok.mp hread
  dsimp only at hread
  split at hread
  · exact Except.ok.inj hread ▸ fun _ h => nomatch h
  split at hread
  · exact Except.ok.inj hread ▸ fun _ h => nomatch h
  split at hread
  · obtain ⟨_, -, hread⟩ := bind_eq_ok.mp hread
    obtain ⟨_, -, hread⟩ := bind_eq_ok.mp hread
    exact Except.ok.inj hread ▸ textsIn_computed _ _
  · obtain ⟨_, -, hread⟩ := bind_eq_ok.mp hread
    exact Except.ok.inj hread ▸ textsIn_computed _ _

/-- Bytes contain no text. -/
theorem textsIn_bytesValue {text : String} {v : Value} (hread : bytesValue text = .ok v) :
    v.TextsIn p := by
  unfold bytesValue at hread
  dsimp only at hread
  split at hread
  · split at hread
    · exact Except.ok.inj hread ▸ fun _ h => nomatch h
    · cases hread
  · cases hread

/-- Truth values contain no text. -/
theorem textsIn_booleanValue {text : String} {v : Value} (hread : booleanValue text = .ok v) :
    v.TextsIn p := by
  unfold booleanValue at hread
  dsimp only at hread
  split at hread
  · exact Except.ok.inj hread ▸ fun _ h => nomatch h
  split at hread
  · exact Except.ok.inj hread ▸ fun _ h => nomatch h
  · cases hread

/-- Moments contain no text. -/
theorem textsIn_momentValue {text : String} {v : Value} (hread : momentValue text = .ok v) :
    v.TextsIn p := by
  unfold momentValue at hread
  split at hread
  · cases hread
  · dsimp only at hread
    split at hread
    all_goals
      obtain ⟨_, -, rfl⟩ := map_eq_ok.mp (mapError_eq_ok hread)
      exact fun _ h => nomatch h

/-- **The value of a scalar** is its text, or contains none. -/
theorem TextsIn.scalarValue (hempty : p "") (h : nodes.TextsIn p) {place : Nat} {v : Value}
    (hread : nodes.scalarValue place = .ok v) : v.TextsIn p := by
  unfold Nodes.scalarValue at hread
  dsimp only at hread
  -- One case for each tag; only a scalar that is a text has its own text as a value.
  split at hread
  next =>
    obtain ⟨_, -, rfl⟩ := map_eq_ok.mp hread
    exact fun _ h => nomatch h
  next =>
    obtain ⟨_, -, hread⟩ := bind_eq_ok.mp hread
    exact textsIn_booleanValue hread
  next =>
    obtain ⟨_, -, hread⟩ := bind_eq_ok.mp hread
    obtain ⟨_, -, rfl⟩ := map_eq_ok.mp hread
    exact fun _ h => nomatch h
  next =>
    obtain ⟨_, -, hread⟩ := bind_eq_ok.mp hread
    exact textsIn_decimalValue hread
  next =>
    obtain ⟨_, -, hread⟩ := bind_eq_ok.mp hread
    exact textsIn_bytesValue hread
  next =>
    obtain ⟨_, -, hread⟩ := bind_eq_ok.mp hread
    split at hread
    · cases hread
    · exact textsIn_momentValue hread
  next =>
    obtain ⟨text, htext, rfl⟩ := map_eq_ok.mp hread
    intro s hs
    cases hs
    exact h.text hempty htext
  next => cases hread

end Nodes

/-! ### Shapes -/

namespace Assembly

variable {a a' : Assembly}

/-- The texts of the nodes have a property, and those of the scalars that have a shape. -/
structure Within (p : String → Prop) (a : Assembly) : Prop where
  nodes : a.nodes.TextsIn p
  shapes : ∀ v, some (Shape.leaf v) ∈ a.shapes → v.TextsIn p

/-- A node gets a shape. -/
theorem Within.withShape (h : a.Within p) {place : Nat} {shape : Shape}
    (hshape : ∀ v, shape = .leaf v → v.TextsIn p) : (a.withShape place shape).Within p :=
  ⟨h.nodes, fun v hv => by
    rcases Array.mem_or_eq_of_mem_setIfInBounds hv with hv | heq
    · exact h.shapes v hv
    · exact hshape v (Option.some.inj heq).symm⟩

/-- Only the nodes change. -/
theorem Within.withNodes (h : a.Within p) {nodes : Nodes} (hnodes : nodes.TextsIn p) :
    ({ a with nodes } : Assembly).Within p := ⟨hnodes, h.shapes⟩

/-- Only the list of collections that wait changes. -/
theorem Within.withBegun (h : a.Within p) (begun : List Nat) :
    ({ a with begun } : Assembly).Within p := ⟨h.nodes, h.shapes⟩

/-- The empty collection of a type is no scalar. -/
theorem emptyShape?_ne_leaf {tag : Tag} {v : Value} : tag.emptyShape? ≠ some (.leaf v) := by
  cases tag <;> simp [Tag.emptyShape?]

/-- A scalar with its place. -/
theorem textsIn_placeLeaf {place : Nat} {v : Value} (h : v.TextsIn p) :
    (a.placeLeaf place v).TextsIn p := by
  unfold placeLeaf
  split
  · split
    · exact fun s hs => by cases hs with | placed hs => exact h s hs
    · exact h
  · split
    · exact fun s hs => by cases hs with | placed hs => exact h s hs
    · exact h
  · exact h

section Steps

variable (hempty : p "")

include hempty

/-- A node is begun. -/
theorem Within.begin (h : a.Within p) {place : Nat} (hread : a.begin place = .ok a') :
    a'.Within p := by
  unfold Assembly.begin at hread
  split at hread
  · exact Except.ok.inj hread ▸ h
  · split at hread
    next shape hshape =>
      refine Except.ok.inj hread ▸ (h.withShape fun v hv => ?_).withBegun _
      exact absurd (hv ▸ hshape) emptyShape?_ne_leaf
    next =>
      obtain ⟨v, hv, rfl⟩ := map_eq_ok.mp hread
      refine h.withShape fun found hfound => ?_
      exact Shape.leaf.inj hfound ▸ textsIn_placeLeaf (h.nodes.scalarValue hempty hv)

/-- An entry is begun. -/
theorem Within.beginEntry (h : a.Within p) {entry : Entry}
    (hread : a.beginEntry entry = .ok a') : a'.Within p := by
  unfold Assembly.beginEntry at hread
  obtain ⟨a₁, hkey, hread⟩ := bind_eq_ok.mp hread
  dsimp only at hread
  split at hread
  · cases hread
  · exact (h.begin hempty hkey).begin hempty hread

/-- A pair is begun. -/
theorem Within.beginPair (h : a.Within p) {place : Nat} (hread : a.beginPair place = .ok a') :
    a'.Within p := by
  unfold Assembly.beginPair at hread
  split at hread
  · obtain ⟨a₁, hkey, hread⟩ := bind_eq_ok.mp hread
    exact (h.begin hempty hkey).begin hempty hread
  · cases hread

/-- The entries of a mapping are begun. -/
theorem Within.mappingEntries (h : a.Within p) {place : Nat} {entries : List Entry}
    (hread : a.mappingEntries place = .ok (entries, a')) : a'.Within p := by
  unfold Assembly.mappingEntries at hread
  obtain ⟨nodes, hnodes, hread⟩ := bind_eq_ok.mp hread
  obtain ⟨a₁, hentries, hread⟩ := bind_eq_ok.mp hread
  obtain ⟨-, rfl⟩ := Prod.mk.inj (Except.ok.inj hread)
  exact foldlM_keeps (fun _ _ _ hstep hdone => Within.beginEntry hempty hdone hstep) hentries
    (h.withNodes (h.nodes.flatten hempty hnodes))

/-- A collection is filled. -/
theorem Within.fill (h : a.Within p) {place : Nat} (hread : a.fill place = .ok a') :
    a'.Within p := by
  unfold Assembly.fill at hread
  split at hread
  -- In all three kinds of collections the parts are places, so no text is added.
  next =>
    obtain ⟨a₁, hitems, hread⟩ := bind_eq_ok.mp hread
    refine Except.ok.inj hread ▸ Within.withShape ?_ fun _ hv => nomatch hv
    exact foldlM_keeps (fun _ _ _ hstep hdone => Within.begin hempty hdone hstep) hitems h
  iterate 2
    next =>
      obtain ⟨a₁, hitems, hread⟩ := bind_eq_ok.mp hread
      refine Except.ok.inj hread ▸ Within.withShape ?_ fun _ hv => nomatch hv
      exact foldlM_keeps (fun _ _ _ hstep hdone => Within.beginPair hempty hdone hstep) hitems h
  iterate 2
    next =>
      obtain ⟨⟨entries, a₁⟩, hentries, hread⟩ := bind_eq_ok.mp hread
      refine Except.ok.inj hread ▸ Within.withShape ?_ fun _ hv => nomatch hv
      exact h.mappingEntries hempty hentries
  next => cases hread

/-- Collections are filled, in rounds. -/
theorem Within.finish (h : a.Within p) {rounds : Nat} (hread : finish rounds a = .ok a') :
    a'.Within p := by
  induction rounds generalizing a with
  | zero => exact Except.ok.inj hread ▸ h
  | succ rounds ih =>
    rw [Assembly.finish] at hread
    split at hread
    · exact Except.ok.inj hread ▸ h
    · obtain ⟨a₁, hfill, hread⟩ := bind_eq_ok.mp hread
      refine ih ?_ hread
      exact foldlM_keeps (fun _ _ _ hstep hdone => Within.fill hempty hdone hstep) hfill
        (h.withBegun [])

/-- **The shapes of a document.** -/
theorem within_ofDocument {d : Document} (h : d.nodes.TextsIn p) (hread : ofDocument d = .ok a) :
    a.Within p := by
  unfold ofDocument at hread
  obtain ⟨a₁, hbegin, hread⟩ := bind_eq_ok.mp hread
  refine Within.finish hempty (Within.begin hempty ⟨h, fun v hv => ?_⟩ hbegin) hread
  cases (Array.mem_replicate.mp hv).2

end Steps
end Assembly

/-! ### Values -/

/-- What is made of a list item by item is made of its items. -/
theorem mem_of_mapM_eq_some {α β : Type} {f : α → Option β} {xs : List α} {ys : List β}
    (h : xs.mapM f = some ys) {y : β} (hy : y ∈ ys) : ∃ x ∈ xs, f x = some y := by
  induction xs generalizing ys with
  | nil =>
    obtain rfl := Option.some.inj (List.mapM_nil.symm.trans h)
    exact absurd hy List.not_mem_nil
  | cons x rest ih =>
    rw [List.mapM_cons] at h
    obtain ⟨first, hfirst, h⟩ := Option.bind_eq_some_iff.mp h
    obtain ⟨others, hothers, h⟩ := Option.bind_eq_some_iff.mp h
    obtain rfl := Option.some.inj h
    rcases List.mem_cons.mp hy with rfl | hy
    · exact ⟨x, List.mem_cons_self, hfirst⟩
    · obtain ⟨x', hx', hfound⟩ := ih hothers hy
      exact ⟨x', List.mem_cons_of_mem _ hx', hfound⟩

/-- The members of a set are those that it was made of. -/
theorem mem_of_mem_listed {v : Value} {members : List Value} (h : v ∈ Value.listed members) :
    v ∈ members := by
  unfold Value.listed at h
  dsimp only at h
  split at h
  next pairs hpairs =>
    obtain ⟨pair, hpair, rfl⟩ := List.mem_map.mp h
    have hpair := (List.mergeSort_perm pairs _).subset hpair
    obtain ⟨w, hw, hplace⟩ := mem_of_mapM_eq_some hpairs hpair
    obtain ⟨place, -, rfl⟩ := Option.map_eq_some_iff.mp hplace
    exact hw
  next => exact h

/-- A shape has the texts of its parts. -/
theorem textsIn_value {shape : Shape} {part : Nat → Value}
    (hleaf : ∀ v, shape = .leaf v → v.TextsIn p)
    (hpart : ∀ place, (part place).TextsIn p) : (shape.value part).TextsIn p := by
  intro s hs
  -- What is in a collection is in one of its parts.
  cases shape with
  | leaf v => exact hleaf v rfl s hs
  | list items =>
    cases hs with
    | item hmem hs =>
      obtain ⟨place, -, rfl⟩ := List.mem_map.mp hmem
      exact hpart place s hs
  | pairs entries =>
    cases hs with
    | item hmem hs =>
      obtain ⟨entry, -, rfl⟩ := List.mem_map.mp hmem
      cases hs with
      | half hmem hs =>
        rcases List.mem_cons.mp hmem with rfl | hmem
        · exact hpart _ s hs
        · exact hpart _ s (List.mem_singleton.mp hmem ▸ hs)
  | map entries =>
    cases hs with
    | key hmem hs =>
      obtain ⟨entry, -, rfl⟩ := List.mem_map.mp hmem
      exact hpart _ s hs
    | value hmem hs =>
      obtain ⟨entry, -, rfl⟩ := List.mem_map.mp hmem
      exact hpart _ s hs
  | set keys =>
    cases hs with
    | member hmem hs =>
      obtain ⟨place, -, rfl⟩ := List.mem_map.mp (mem_of_mem_listed hmem)
      exact hpart place s hs

section Unrolled

variable {d : Document} {a : Assembly} {values : Array Value}

/-- A value with its place. -/
theorem textsIn_placedValue {isShared : Bool} {place : Nat} {shape : Shape}
    (hleaf : ∀ v, shape = .leaf v → v.TextsIn p) (hvalues : ∀ v ∈ values, v.TextsIn p) :
    (placedValue isShared values place shape).TextsIn p := by
  have hpart : ∀ place, (values.getD place .endless).TextsIn p := by
    intro place
    rw [Array.getD_eq_getD_getElem?]
    cases hget : values[place]? with
    | none => exact fun _ h => nomatch h
    | some v => exact hvalues v (Array.mem_of_getElem? hget)
  have hshape := textsIn_value hleaf hpart
  unfold placedValue
  split
  · exact hleaf _ rfl
  · dsimp only
    split
    · exact fun s hs => by cases hs with | placed hs => exact hshape s hs
    · exact hshape

/-- Values are unrolled once more. -/
theorem textsIn_unrollOnce (h : a.Within p) (hvalues : ∀ v ∈ values, v.TextsIn p) :
    ∀ v ∈ unrollOnce a values, v.TextsIn p := by
  unfold unrollOnce
  generalize (List.range a.shapes.size).reverse = places
  -- By induction on the places, whose values are written one after another.
  induction places generalizing values with
  | nil => exact hvalues
  | cons place rest ih =>
    refine ih fun v hv => ?_
    dsimp only at hv
    split at hv
    next shape hshape =>
      rcases Array.mem_or_eq_of_mem_setIfInBounds hv with hv | rfl
      · exact hvalues v hv
      · refine textsIn_placedValue (fun w hw => h.shapes w ?_) hvalues
        rw [Array.getD_eq_getD_getElem?, Option.getD_eq_iff] at hshape
        rcases hshape with hshape | ⟨-, hnever⟩
        · exact hw ▸ Array.mem_of_getElem? hshape
        · cases hnever
    next => exact hvalues v hv

/-- Unrolling again and again keeps the texts. -/
theorem textsIn_rounds (h : a.Within p) (rounds : List Nat) {values : Array Value}
    (hvalues : ∀ v ∈ values, v.TextsIn p) :
    ∀ v ∈ rounds.foldl (fun values _ => unrollOnce a values) values, v.TextsIn p := by
  induction rounds generalizing values with
  | nil => exact hvalues
  | cons round rest ih => exact ih (textsIn_unrollOnce h hvalues)

/-- **The values of the nodes** of a document. -/
theorem textsIn_unrolled (h : a.Within p) : ∀ v ∈ unrolled d a, v.TextsIn p := by
  refine textsIn_rounds h _ fun v hv => ?_
  obtain ⟨shape, hshape, rfl⟩ := Array.mem_map.mp hv
  split
  · exact h.shapes _ hshape
  · intro _ hnever
    cases hnever

end Unrolled

/-- **The texts in the value of a document** stand in it as tokens. -/
theorem textsIn_read {text : String} {v : Value} (hread : read text = .ok v) :
    v.TextsIn fun s => s = "" ∨ s ∈ textsOf (Token.scan text) := by
  unfold read at hread
  obtain ⟨found?, hdocument, hread⟩ := bind_eq_ok.mp hread
  -- A text without a document has no value with texts; otherwise they come from nodes, and these
  -- have them from tokens.
  cases found? with
  | none => exact Except.ok.inj hread ▸ fun _ h => nomatch h
  | some d =>
    obtain ⟨a, ha, hread⟩ := bind_eq_ok.mp hread
    have hnodes : d.nodes.TextsIn fun s => s = "" ∨ s ∈ textsOf (Token.scan text) := by
      unfold Document.ofText? at hdocument
      dsimp only at hdocument
      split at hdocument
      · cases hdocument
      · obtain ⟨r, hr, hdocument⟩ := bind_eq_ok.mp hdocument
        split at hdocument
        · obtain rfl := Option.some.inj (Except.ok.inj hdocument)
          have hwithin := Reader.within_document
            (p := fun s => s = "" ∨ s ∈ textsOf (Token.scan text)) (.inl rfl)
            (fun s hs => .inr hs) hr
          intro n hn
          obtain ⟨node?, hnode, rfl⟩ := Array.mem_map.mp hn
          cases node? with
          | none => exact Reader.textIn_empty (.inl rfl)
          | some n => exact hwithin.nodes n hnode
        · cases hdocument
    have hvalues := textsIn_unrolled (d := d) (Assembly.within_ofDocument (.inl rfl) hnodes ha)
    obtain rfl := Except.ok.inj hread
    rw [Array.getD_eq_getD_getElem?]
    cases hget : (unrolled d a)[0]? with
    | none => exact fun _ h => nomatch h
    | some v => exact hvalues v (Array.mem_of_getElem? hget)

/-- Two different texts of a list are no longer than the list. -/
theorem length_add_length_le {texts : List String} {s t : String} (hs : s ∈ texts)
    (ht : t ∈ texts)
    (hne : s ≠ t) : s.length + t.length ≤ (texts.map String.length).sum := by
  have hleft := List.sum_map_erase String.length hs
  have hmem : t ∈ texts.erase s := (List.mem_erase_of_ne hne.symm).mpr ht
  have hle := List.le_sum_of_mem (List.mem_map_of_mem (f := String.length) hmem)
  omega

/-- **Two different texts in the value of a document** are no longer than the document. -/
theorem length_add_length_le_of_read {text s t : String} {v : Value} (hread : read text = .ok v)
    (hs : v.Contains s) (ht : v.Contains t) (hne : s ≠ t) :
    s.length + t.length ≤ text.length := by
  refine Nat.le_trans ?_ (textLength_scan text)
  have hone : ∀ {s}, s ∈ textsOf (Token.scan text) →
    s.length ≤ textLength (Token.scan text) :=
    fun hs => List.le_sum_of_mem (List.mem_map_of_mem hs)
  rcases textsIn_read hread s hs with rfl | hs
  · rcases textsIn_read hread t ht with rfl | ht
    · exact absurd rfl hne
    · exact Nat.le_trans (Nat.le_of_eq (Nat.zero_add _)) (hone ht)
  · rcases textsIn_read hread t ht with rfl | ht
    · exact hone hs
    · exact length_add_length_le hs ht hne

end Yaml
end PipelineCompiler
