import PipelineCompiler.Proofs.Yaml.Table

namespace PipelineCompiler.Yaml

/-!
# Nodes become values

* `Lies` — a value whose nodes are in a table, those of its parts behind its own;
* `Kept.lies` — the nodes that a value is read as are there;
* `Assembly.Follows` — what holds while nodes get their shapes;
* `Assembly.exists_fill`, `Assembly.exists_finish` — a collection is filled, and so are all of
  them;
* `areValues_unrollOnce` — every shape has the value of which the nodes are in the table;
* `Kept.read_write` — data that comes back from YAML is what its text is read as.
-/

/-! ### Where nodes lie -/

/-- The node at a place is that of a value, and those of its parts lie behind it. -/
inductive Lies (nodes : Nodes) : Nat → Value → Prop
  | atom {place : Nat} {v : Value} (inside : place < nodes.size) (atom : Atom v)
      (node : nodes.node place = scalarNode v) : Lies nodes place v
  | list {place : Nat} {parts : List (Nat × Value)} (inside : place < nodes.size)
      (node : nodes.node place = { tag := .seq, content := .sequence (parts.map (·.1)) })
      (behind : ∀ part ∈ parts, place < part.1)
      (each : ∀ part ∈ parts, Lies nodes part.1 part.2) :
    Lies nodes place (.list (parts.map (·.2)))
  | fields {place : Nat} {parts : List ((Nat × String) × (Nat × Value))}
      (inside : place < nodes.size) (node : nodes.node place =
        { tag := .map, content := .mapping (parts.map fun part => (part.1.1, part.2.1)) })
      (behind : ∀ part ∈ parts, place < part.1.1 ∧ place < part.2.1)
      (nodup : (parts.map (·.1.2)).Nodup)
      (keys : ∀ part ∈ parts, Lies nodes part.1.1 (.str part.1.2))
      (each : ∀ part ∈ parts, Lies nodes part.2.1 part.2.2) :
    Lies nodes place (.ofFields (parts.map fun part => (part.1.2, part.2.2)))

/-- The nodes of a value stand somewhere in a table. -/
def StandIn (nodes : Nodes) (place : Nat) (found : List Node) : Prop :=
  ∃ before after, nodes.toList = before ++ (found ++ after) ∧ before.length = place

/-- The first of them. -/
theorem StandIn.head {nodes : Nodes} {place : Nat} {node : Node} {found : List Node}
    (h : StandIn nodes place (node :: found)) :
    place < nodes.size ∧ nodes.node place = node ∧ StandIn nodes (place + 1) found := by
  obtain ⟨before, after, hlist, rfl⟩ := h
  have hsize : nodes.size = before.length + (found.length + 1 + after.length) := by
    rw [← Array.length_toList, hlist]
    simp only [List.length_append, List.length_cons]
  refine ⟨by omega, ?_, before ++ [node], after, by simp [hlist], by simp⟩
  rw [Nodes.node, Array.getD_eq_getD_getElem?, ← Array.getElem?_toList, hlist]
  simp

/-- Some of them, and the others behind. -/
theorem StandIn.append {nodes : Nodes} {place : Nat} {found others : List Node}
    (h : StandIn nodes place (found ++ others)) :
    StandIn nodes place found ∧ StandIn nodes (place + found.length) others := by
  obtain ⟨before, after, hlist, rfl⟩ := h
  exact ⟨⟨before, others ++ after, by simp [hlist], rfl⟩,
    ⟨before ++ found, after, by simp [hlist], by simp⟩⟩

/-- Items lie where their nodes stand. -/
theorem exists_items {nodes : Nodes} {items : List Value}
    (h : ∀ v ∈ items, ∀ place, StandIn nodes place (nodesOf place v) → Lies nodes place v)
    {place : Nat} (hstand : StandIn nodes place (itemNodes place items)) :
    ∃ parts : List (Nat × Value), parts.map (·.1) = itemPlaces place items ∧
      parts.map (·.2) = items ∧ ∀ part ∈ parts, place ≤ part.1 ∧
        Lies nodes part.1 part.2 := by
  -- By induction on the items, whose nodes stand one after another.
  induction items generalizing place with
  | nil => exact ⟨[], rfl, rfl, List.forall_mem_nil _⟩
  | cons v others ih =>
    rw [itemNodes] at hstand
    obtain ⟨hfirst, hothers⟩ := hstand.append
    obtain ⟨parts, hplaces, hvalues, hlie⟩ :=
      ih (fun w hw => h w (List.mem_cons_of_mem v hw)) hothers
    refine ⟨(place, v) :: parts, ?_, ?_, ?_⟩
    · rw [List.map_cons, hplaces, itemPlaces]
    · rw [List.map_cons, hvalues]
    · refine List.forall_mem_cons.mpr ⟨⟨Nat.le_refl _, h v List.mem_cons_self place hfirst⟩,
        fun part hpart => ?_⟩
      obtain ⟨hle, hpart⟩ := hlie part hpart
      exact ⟨by omega, hpart⟩

/-- So do entries. -/
theorem exists_entries {nodes : Nodes} {fields : List (String × Value)}
    (hkeys : ∀ field ∈ fields, Scalar.isKept field.1 = true)
    (h : ∀ field ∈ fields, ∀ place, StandIn nodes place (nodesOf place field.2) →
      Lies nodes place field.2)
    {place : Nat} (hstand : StandIn nodes place (entryNodes place (entriesOf fields))) :
    ∃ parts : List ((Nat × String) × (Nat × Value)),
      (parts.map fun part => (part.1.1, part.2.1)) = entryPlaces place (entriesOf fields) ∧
      (parts.map fun part => (part.1.2, part.2.2)) = fields ∧
      ∀ part ∈ parts, (place ≤ part.1.1 ∧ place ≤ part.2.1) ∧
        Lies nodes part.1.1 (.str part.1.2) ∧ Lies nodes part.2.1 part.2.2 := by
  -- By induction on the entries; keys and values take their places in turn.
  induction fields generalizing place with
  | nil => exact ⟨[], rfl, rfl, List.forall_mem_nil _⟩
  | cons field others ih =>
    rw [entriesOf, List.map_cons, entryNodes] at hstand
    obtain ⟨hinside, hnode, hstand⟩ := hstand.head
    obtain ⟨hvalue, hothers⟩ := hstand.append
    obtain ⟨parts, hplaces, hvalues, hlie⟩ :=
      ih (fun other hother => hkeys other (List.mem_cons_of_mem field hother))
        (fun other hother => h other (List.mem_cons_of_mem field hother)) hothers
    have hkey : Lies nodes place (.str field.1) :=
      .atom hinside (.str (hkeys field List.mem_cons_self)) hnode
    refine ⟨((place, field.1), place + 1, field.2) :: parts, ?_, ?_, ?_⟩
    · show _ = entryPlaces place ((.str field.1, field.2) :: entriesOf others)
      rw [List.map_cons, hplaces, entryPlaces]
    · rw [List.map_cons, hvalues]
    · refine List.forall_mem_cons.mpr ⟨⟨⟨Nat.le_refl _, Nat.le_succ _⟩, hkey,
        h field List.mem_cons_self _ hvalue⟩, fun part hpart => ?_⟩
      obtain ⟨⟨hle, hle'⟩, hpart⟩ := hlie part hpart
      exact ⟨⟨by omega, by omega⟩, hpart⟩

/-- **Data that comes back** lies where its nodes stand. -/
theorem Kept.lies {depth : Nat} {v : Value} (h : Kept depth v) {nodes : Nodes} {place : Nat}
    (hstand : StandIn nodes place (nodesOf place v)) : Lies nodes place v := by
  -- By induction on the data: its node comes first, and those of its parts behind it.
  induction h generalizing place with
  | atom h =>
    rw [h.nodesOf_eq] at hstand
    obtain ⟨hinside, hnode, -⟩ := hstand.head
    exact .atom hinside h hnode
  | list each ih =>
    rw [nodesOf] at hstand
    obtain ⟨hinside, hnode, hstand⟩ := hstand.head
    obtain ⟨parts, hplaces, rfl, hlie⟩ := exists_items (fun v hv _ => ih v hv) hstand
    exact .list hinside (hplaces ▸ hnode) (fun part hpart => (hlie part hpart).1)
      fun part hpart => (hlie part hpart).2
  | fields nodup keys each ih =>
    rw [Value.ofFields, nodesOf] at hstand
    obtain ⟨hinside, hnode, hstand⟩ := hstand.head
    obtain ⟨parts, hplaces, rfl, hlie⟩ := exists_entries
      (fun field hfield => isKept_of_isKeptKey (keys field hfield))
      (fun field hfield _ => ih field hfield) hstand
    have hnodup : (parts.map (·.1.2)).Nodup := by
      rw [Keyed.keys, List.map_map] at nodup
      exact nodup
    exact .fields hinside (hplaces ▸ hnode) (fun part hpart => (hlie part hpart).1) hnodup
      (fun part hpart => (hlie part hpart).2.1) fun part hpart => (hlie part hpart).2.2

/-! ### Shapes -/

/-- What the node at a place stands for. -/
def Nodes.shapeAt (nodes : Nodes) (place : Nat) : Shape :=
  match nodes.content place with
  | .sequence items => .list items
  | .mapping entries => .map entries
  | .scalar _ => .leaf ((nodes.scalarValue place).toOption.getD .null)

section Shapes

variable {nodes : Nodes} {place : Nat} {v : Value}

/-- There is a node. -/
theorem Lies.inside (h : Lies nodes place v) : place < nodes.size := by
  cases h <;> assumption

/-- A key that lies in a table comes back. -/
theorem Lies.atom_str {key : String} (h : Lies nodes place (.str key)) : Atom (.str key) := by
  cases h with
  | atom inside atom node => exact atom

/-- The shape of a scalar. -/
theorem Lies.shapeAt_atom (h : Lies nodes place v) (hatom : Atom v) :
    nodes.shapeAt place = .leaf v := by
  cases h with
  | atom inside atom node =>
    rw [Nodes.shapeAt, Nodes.content, node]
    dsimp only [scalarNode]
    rw [atom.scalarValue_eq node]
    rfl
  | list => cases hatom
  | fields => cases hatom

/-- The parts of a shape lie behind it. -/
theorem Lies.parts (h : Lies nodes place v) :
    ∀ part ∈ (nodes.shapeAt place).parts, place < part ∧ ∃ w, Lies nodes part w := by
  -- An atom has no parts.
  cases h with
  | atom inside atom node =>
    rw [(Lies.atom inside atom node).shapeAt_atom atom]
    exact List.forall_mem_nil _
  | list inside node behind each =>
    rw [Nodes.shapeAt, Nodes.content, node]
    exact List.forall_mem_map.mpr fun part hpart => ⟨behind part hpart, _, each part hpart⟩
  | fields inside node behind nodup keys each =>
    rw [Nodes.shapeAt, Nodes.content, node]
    intro place hplace
    obtain ⟨entry, hentry, hplace⟩ := List.mem_flatMap.mp hplace
    obtain ⟨part, hpart, rfl⟩ := List.mem_map.mp hentry
    obtain ⟨hkey, hvalue⟩ := behind part hpart
    rcases List.mem_cons.mp hplace with rfl | hplace
    · exact ⟨hkey, _, keys part hpart⟩
    · obtain rfl := List.mem_singleton.mp hplace
      exact ⟨hvalue, _, each part hpart⟩

end Shapes

/-! ### Assembling -/

namespace Assembly

/-- Whether the node at a place has a shape. -/
def IsShaped (a : Assembly) (place : Nat) : Prop := (a.shapes.getD place none).isSome = true

/-- Whether it has the shape that it stands for, and its parts have shapes. -/
structure IsFilled (nodes : Nodes) (a : Assembly) (place : Nat) : Prop where
  shape : a.shapes.getD place none = some (nodes.shapeAt place)
  parts : ∀ part ∈ (nodes.shapeAt place).parts, a.IsShaped part

/-- A collection that lies at a place. -/
structure IsCollection (nodes : Nodes) (place : Nat) : Prop where
  lies : ∃ v, Lies nodes place v
  empty : (nodes.tag place).emptyShape?.isSome = true

/-- What holds while the nodes of a value get their shapes: those that have one are filled, or wait
    to be filled, now or in the next round. -/
structure Follows (nodes : Nodes) (pending : List Nat) (a : Assembly) : Prop where
  table : a.nodes = nodes
  size : a.shapes.size = nodes.size
  shared : a.isShared = false
  waits : ∀ place ∈ pending, IsCollection nodes place
  begun : ∀ place ∈ a.begun, IsCollection nodes place
  lies : ∀ place, a.IsShaped place → ∃ v, Lies nodes place v
  filled : ∀ place, a.IsShaped place → place ∈ pending ∨ place ∈ a.begun ∨
    a.IsFilled nodes place

/-- Shapes stay, and what is begun lies at a place or behind it. -/
structure Extends (least : Nat) (a b : Assembly) : Prop where
  shaped : ∀ place, a.IsShaped place → b.IsShaped place
  begun : ∀ place ∈ b.begun, place ∈ a.begun ∨ least ≤ place

variable {nodes : Nodes} {pending : List Nat} {a b c : Assembly} {place least : Nat} {v : Value}

/-- Nothing happens. -/
theorem Extends.refl (least : Nat) (a : Assembly) : Extends least a a :=
  ⟨fun _ h => h, fun _ h => .inl h⟩

/-- One step after another. -/
theorem Extends.trans (h : Extends least a b) (h' : Extends least b c) : Extends least a c :=
  ⟨fun place hplace => h'.shaped place (h.shaped place hplace), fun place hplace =>
    (h'.begun place hplace).elim (h.begun place) .inr⟩

/-- Behind a place that is further back. -/
theorem Extends.mono {less : Nat} (h : Extends least a b) (hle : less ≤ least) :
    Extends less a b :=
  ⟨h.shaped, fun place hplace => (h.begun place hplace).imp_right hle.trans⟩

/-- The shape that is given, and all others. -/
theorem shape_withShape (a : Assembly) (h : place < a.shapes.size) (shape : Shape) (other : Nat) :
    (a.withShape place shape).shapes.getD other none =
      if other = place then some shape else a.shapes.getD other none := by
  simp only [withShape, Array.getD_eq_getD_getElem?]
  split
  next heq =>
    subst heq
    simp [h]
  next hne =>
    rw [Array.getElem?_setIfInBounds_ne (Ne.symm hne)]

/-- Shapes are added. -/
theorem isShaped_withShape (a : Assembly) (h : place < a.shapes.size) (shape : Shape)
    (other : Nat) :
    (a.withShape place shape).IsShaped other ↔ other = place ∨ a.IsShaped other := by
  rw [IsShaped, shape_withShape a h, IsShaped]
  split
  next heq => simp [heq]
  next hne => simp [hne]

/-- What is filled stays filled. -/
theorem IsFilled.withShape {other : Nat} (hfilled : a.IsFilled nodes other)
    (h : place < a.shapes.size) (hne : other ≠ place) (shape : Shape) :
    (a.withShape place shape).IsFilled nodes other := by
  refine ⟨?_, fun part hpart =>
    (isShaped_withShape a h shape part).mpr (.inr (hfilled.parts part hpart))⟩
  rw [shape_withShape a h, if_neg hne]
  exact hfilled.shape

/-- **The node at a place is given a shape**, and waits to be filled unless it is the one that it
    stands for. -/
theorem Follows.withShape (h : a.Follows nodes pending) (hlies : Lies nodes place v) {shape : Shape}
    {others begun : List Nat} (hothers : ∀ other ∈ others, IsCollection nodes other)
    (hbegun : ∀ other ∈ begun, IsCollection nodes other)
    (hpending : ∀ other ∈ pending, other = place ∨ other ∈ others)
    (hstay : ∀ other ∈ a.begun, other ∈ begun)
    (hown : place ∈ begun ∨ shape = nodes.shapeAt place ∧
      ∀ part ∈ (nodes.shapeAt place).parts, a.IsShaped part) :
    Follows nodes others { a.withShape place shape with begun } := by
  have hinside : place < a.shapes.size := h.size ▸ hlies.inside
  have hshaped := isShaped_withShape a hinside shape
  -- All other places keep what they have; only this one gets a shape, and is to be filled unless it
  -- is a scalar.
  refine ⟨h.table, Array.size_setIfInBounds.trans h.size, h.shared, hothers, hbegun,
    fun other hother => ?_, fun other hother => ?_⟩
  · rcases (hshaped other).mp hother with rfl | hother
    · exact ⟨v, hlies⟩
    · exact h.lies other hother
  · by_cases heq : other = place
    · subst heq
      rcases hown with hown | ⟨rfl, hparts⟩
      · exact .inr (.inl hown)
      · refine .inr (.inr ⟨?_, fun part hpart =>
          (hshaped part).mpr (.inr (hparts part hpart))⟩)
        exact (shape_withShape a hinside _ other).trans (if_pos rfl)
    · rcases h.filled other (((hshaped other).mp hother).resolve_left heq) with
        hwaits | hwaits | hfilled
      · exact .inl ((hpending other hwaits).resolve_left heq)
      · exact .inr (.inl (hstay other hwaits))
      · exact .inr (.inr ⟨(hfilled.withShape hinside heq shape).shape,
          (hfilled.withShape hinside heq shape).parts⟩)

/-- Shapes grow by it. -/
theorem extends_withShape (least : Nat) (h : place < a.shapes.size) (shape : Shape) :
    Extends least a (a.withShape place shape) :=
  ⟨fun other hother => (isShaped_withShape a h shape other).mpr (.inr hother),
    fun _ hother => .inl hother⟩

/-- A scalar that has a shape has its value. -/
theorem Follows.leaf?_eq (h : a.Follows nodes pending) (hlies : Lies nodes place v) (hatom : Atom v)
    (hshaped : a.IsShaped place) : a.leaf? place = some v := by
  have hnone : ¬ IsCollection nodes place := fun hcollection => by
    have hempty := hcollection.empty
    cases hlies with
    | atom inside atom node =>
      rw [Nodes.tag, node, atom.emptyShape?_eq] at hempty
      cases hempty
    | list => cases hatom
    | fields => cases hatom
  rcases h.filled place hshaped with hpending | hbegun | hfilled
  · exact absurd (h.waits place hpending) hnone
  · exact absurd (h.begun place hbegun) hnone
  · rw [leaf?, hfilled.shape, hlies.shapeAt_atom hatom]

/-- What is no collection is a scalar. -/
theorem atom_of_emptyShape? (hlies : Lies nodes place v)
    (hempty : (nodes.tag place).emptyShape? = none) : Atom v := by
  cases hlies with
  | atom inside atom node => exact atom
  | list inside node =>
    rw [Nodes.tag, node] at hempty
    cases hempty
  | fields inside node =>
    rw [Nodes.tag, node] at hempty
    cases hempty

/-- **A node gets a shape**: a scalar its own, a collection an empty one. -/
theorem exists_begin (h : a.Follows nodes pending) (hlies : Lies nodes place v) :
    ∃ b, a.begin place = .ok b ∧ b.Follows nodes pending ∧ Extends place a b ∧
      b.IsShaped place := by
  have hinside : place < a.shapes.size := h.size ▸ hlies.inside
  have hnew : ∀ shape, (a.withShape place shape).IsShaped place := fun shape =>
    (isShaped_withShape a hinside shape place).mpr (.inl rfl)
  -- A place that has a shape already is left alone.
  by_cases hshaped : a.IsShaped place
  · exact ⟨a, if_pos hshaped, h, .refl _ _, hshaped⟩
  have hnone : ¬ (a.shapes.getD place none).isSome = true := hshaped
  rw [begin, if_neg hnone, h.table]
  cases hempty : (nodes.tag place).emptyShape? with
  | some shape =>
    have hcollection : IsCollection nodes place := ⟨⟨v, hlies⟩, by rw [hempty]; rfl⟩
    refine ⟨_, rfl,
      h.withShape hlies h.waits (List.forall_mem_cons.mpr ⟨hcollection, h.begun⟩)
      (fun _ hother => .inr hother) (fun _ hother => List.mem_cons_of_mem place hother)
      (.inl List.mem_cons_self),
      ⟨(extends_withShape place hinside shape).shaped, fun other hbegun => ?_⟩, hnew shape⟩
    rcases List.mem_cons.mp hbegun with rfl | hbegun
    · exact .inr (Nat.le_refl _)
    · exact .inl hbegun
  | none =>
    have hatom := atom_of_emptyShape? hlies hempty
    have hshape := hlies.shapeAt_atom hatom
    have hvalue : nodes.scalarValue place = .ok v := by
      cases hlies with
      | atom inside atom node => exact atom.scalarValue_eq node
      | list | fields => cases hatom
    rw [hvalue]
    refine ⟨_,
      congrArg (fun v => Except.ok (a.withShape place (.leaf v))) (hatom.placeLeaf_eq a place), ?_,
      extends_withShape place hinside _, hnew _⟩
    exact h.withShape hlies h.waits h.begun (fun _ hother => .inr hother) (fun _ hother => hother)
      (.inr ⟨hshape.symm, by rw [hshape]; exact List.forall_mem_nil _⟩)

/-- **Items get shapes.** -/
theorem exists_beginAll (h : a.Follows nodes pending) {places : List Nat}
    (hlies : ∀ place ∈ places, least ≤ place ∧ ∃ v, Lies nodes place v) :
    ∃ b, places.foldlM begin a = .ok b ∧ b.Follows nodes pending ∧ Extends least a b ∧
      ∀ place ∈ places, b.IsShaped place := by
  induction places generalizing a with
  | nil => exact ⟨a, rfl, h, .refl _ _, List.forall_mem_nil _⟩
  | cons place others ih =>
    obtain ⟨⟨hle, v, hplace⟩, hothers⟩ := List.forall_mem_cons.mp hlies
    obtain ⟨b, hbegin, hb, hextends, hshaped⟩ := exists_begin h hplace
    obtain ⟨c, hrest, hc, hextends', hshaped'⟩ := ih hb hothers
    refine ⟨c, ?_, hc, (hextends.mono hle).trans hextends',
      List.forall_mem_cons.mpr ⟨hextends'.shaped place hshaped, hshaped'⟩⟩
    rw [List.foldlM_cons, hbegin]
    exact hrest

/-! ### Entries -/

section Entries

variable {parts : List ((Nat × String) × (Nat × Value))}

/-- The places of a key and its value. -/
def entryOf (part : (Nat × String) × (Nat × Value)) : Entry := (part.1.1, part.2.1)

/-- Keys and values that lie in a table, the values anywhere behind a place. -/
def AreEntries (nodes : Nodes) (least : Nat) (parts : List ((Nat × String) × (Nat × Value))) :
    Prop :=
  ∀ part ∈ parts, (least ≤ part.1.1 ∧ Lies nodes part.1.1 (.str part.1.2)) ∧
    (least ≤ part.2.1 ∧ Lies nodes part.2.1 part.2.2)

/-- **Entries get shapes.** -/
theorem exists_beginEntries (h : a.Follows nodes pending) (hparts : AreEntries nodes least parts) :
    ∃ b, (parts.map entryOf).foldlM beginEntry a = .ok b ∧ b.Follows nodes pending ∧
      Extends least a b ∧ ∀ part ∈ parts, b.IsShaped part.1.1 ∧ b.IsShaped part.2.1 := by
  -- By induction on the entries.  Keys are scalars and have their values at once.
  induction parts generalizing a with
  | nil => exact ⟨a, rfl, h, .refl _ _, List.forall_mem_nil _⟩
  | cons part others ih =>
    obtain ⟨⟨⟨hkeyle, hkey⟩, hvaluele, hvalue⟩, hothers⟩ :=
      List.forall_mem_cons.mp hparts
    obtain ⟨b, hbegin, hb, hextends, hkeyed⟩ := exists_begin h hkey
    obtain ⟨c, hbegin', hc, hextends', hshaped⟩ := exists_begin hb hvalue
    obtain ⟨d, hrest, hd, hextends'', hshaped'⟩ := ih hc hothers
    have hleaf := hb.leaf?_eq hkey hkey.atom_str hkeyed
    have hentry : a.beginEntry (entryOf part) = .ok c := by
      rw [beginEntry, entryOf, hbegin]
      dsimp only [bind, Except.bind]
      rw [hleaf]
      exact hbegin'
    have hsteps := (hextends'.mono hvaluele).trans hextends''
    refine ⟨d, ?_, hd, (hextends.mono hkeyle).trans hsteps, List.forall_mem_cons.mpr
      ⟨⟨hsteps.shaped _ hkeyed, hextends''.shaped _ hshaped⟩, hshaped'⟩⟩
    rw [List.map_cons, List.foldlM_cons, hentry]
    exact hrest

/-- An entry whose key is new is written at the end. -/
theorem putEntry_of_new {entry : Entry} {done : List Entry}
    (h : ∀ other ∈ done, a.sameKey other.1 entry.1 = false) :
    a.putEntry entry done = done ++ [entry] := by
  induction done with
  | nil => rfl
  | cons other rest ih =>
    obtain ⟨hother, hrest⟩ := List.forall_mem_cons.mp h
    rw [putEntry, hother, if_neg Bool.false_ne_true, ih hrest]
    rfl

/-- **Entries with different keys** are written one after another. -/
theorem foldl_putEntry (done : List ((Nat × String) × (Nat × Value)))
    (hleaf : ∀ part ∈ done ++ parts, a.leaf? part.1.1 = some (.str part.1.2))
    (hnodup : ((done ++ parts).map (·.1.2)).Nodup) :
    (parts.map entryOf).foldl (fun done entry => a.putEntry entry done) (done.map entryOf) =
      (done ++ parts).map entryOf := by
  -- By induction on the entries; each key is new, so its entry goes to the end.
  induction parts generalizing done with
  | nil => simp
  | cons part others ih =>
    have hnew : ∀ other ∈ done.map entryOf, a.sameKey other.1 (entryOf part).1 = false := by
      refine List.forall_mem_map.mpr fun other hother => ?_
      have hne : other.1.2 ≠ part.1.2 := by
        rw [List.map_append, List.map_cons] at hnodup
        exact (List.nodup_append.mp hnodup).2.2 _ (List.mem_map_of_mem hother) _ List.mem_cons_self
      rw [sameKey, entryOf, entryOf, hleaf other (List.mem_append_left _ hother),
        hleaf part (List.mem_append_right _ List.mem_cons_self)]
      show (other.1.2 == part.1.2) = false
      exact beq_eq_false_iff_ne.mpr hne
    have happend : done ++ part :: others = (done ++ [part]) ++ others := by simp
    rw [List.map_cons, List.foldl_cons, putEntry_of_new hnew, happend]
    rw [happend] at hleaf hnodup
    rw [← ih (done ++ [part]) hleaf hnodup, List.map_append]
    rfl

end Entries

end Assembly

/-- **Without merge keys** and the key `=` a mapping stays as it is. -/
theorem Nodes.flatten_eq {nodes : Nodes} {place : Nat}
    (h : ∀ entry ∈ nodes.entries place, nodes.tag entry.1 = .str) :
    nodes.flatten place = .ok nodes := by
  have hother : ∀ entry ∈ nodes.entries place, (nodes.tag entry.1 != .merge) = true :=
    fun entry hentry => by rw [h entry hentry]; rfl
  -- No entry has a merge key, so none is taken out, and no key is turned into a text.
  have htake : nodes.takeMerge? place = none := by
    rw [takeMerge?, List.dropWhile_eq_nil_iff.mpr hother]
  have htext : ∀ entries : List Entry, (∀ entry ∈ entries, nodes.tag entry.1 = .str) →
      entries.foldl (fun nodes entry => nodes.asText entry.1) nodes = nodes := by
    intro entries hentries
    induction entries with
    | nil => rfl
    | cons entry rest ih =>
      obtain ⟨hentry, hrest⟩ := List.forall_mem_cons.mp hentries
      have hsame : nodes.asText entry.1 = nodes := by
        rw [asText, hentry]
        rfl
      rw [List.foldl_cons, hsame, ih hrest]
  rw [flatten, htake, Option.isNone_none, if_pos rfl, prepend, htext _ h]
  rfl

/-! ### Filling -/

namespace Assembly

variable {nodes : Nodes} {pending : List Nat} {a b c : Assembly} {place least : Nat} {v : Value}

/-- The node at a place is given the shape that it stands for. -/
theorem Follows.fill (h : a.Follows nodes (place :: pending)) (least : Nat)
    (hlies : Lies nodes place v)
    (hparts : ∀ part ∈ (nodes.shapeAt place).parts, a.IsShaped part) :
    (a.withShape place (nodes.shapeAt place)).Follows nodes pending ∧
      Extends least a (a.withShape place (nodes.shapeAt place)) := by
  refine ⟨?_, extends_withShape least (h.size ▸ hlies.inside) _⟩
  exact h.withShape hlies (fun other hother => h.waits other (List.mem_cons_of_mem place hother))
    h.begun (fun _ hother => List.mem_cons.mp hother) (fun _ hother =>
      hother) (.inr ⟨rfl, hparts⟩)

/-- **A collection is filled.** -/
theorem exists_fill (h : a.Follows nodes (place :: pending)) :
    ∃ b, a.fill place = .ok b ∧ b.Follows nodes pending ∧ Extends (place + 1) a b := by
  obtain ⟨⟨v, hlies⟩, hempty⟩ := h.waits place List.mem_cons_self
  -- A scalar is never waiting to be filled.  Lists and mappings begin their parts, which lie behind
  -- them, and then get them.
  cases hlies with
  | atom inside atom node =>
    rw [Nodes.tag, node, atom.emptyShape?_eq] at hempty
    cases hempty
  | list inside node behind each =>
    rename_i parts
    have hlies := Lies.list inside node behind each
    have hshape : nodes.shapeAt place = .list (parts.map (·.1)) := by
      rw [Nodes.shapeAt, Nodes.content, node]
    obtain ⟨b, hbegin, hb, hextends, hshaped⟩ := exists_beginAll h
      (List.forall_mem_map.mpr fun part hpart => ⟨behind part hpart, _, each part hpart⟩)
    obtain ⟨hfollows, hextends'⟩ := hb.fill (place + 1) hlies (by rw [hshape]; exact hshaped)
    refine ⟨_, ?_, hfollows, hextends.trans hextends'⟩
    rw [Assembly.fill, h.table, Nodes.tag, Nodes.content, node, hshape]
    dsimp only
    rw [hbegin]
    rfl
  | fields inside node behind nodup keys each =>
    rename_i parts
    have hlies := Lies.fields inside node behind nodup keys each
    have hentries : nodes.entries place = parts.map entryOf := by
      rw [Nodes.entries, Nodes.content, node]
      rfl
    have hshape : nodes.shapeAt place = .map (parts.map entryOf) := by
      rw [Nodes.shapeAt, Nodes.content, node]
      rfl
    have hkeytags : ∀ entry ∈ nodes.entries place, nodes.tag entry.1 = .str := by
      rw [hentries]
      refine List.forall_mem_map.mpr fun part hpart => ?_
      cases keys part hpart with
      | atom inside atom node =>
        rw [entryOf, Nodes.tag, node, atom.tag_eq]
        rfl
    have hflatten := Nodes.flatten_eq hkeytags
    have hpart : AreEntries nodes (place + 1) parts := fun part hpart =>
      ⟨⟨(behind part hpart).1, keys part hpart⟩, (behind part hpart).2, each part hpart⟩
    obtain ⟨b, hbegin, hb, hextends, hshaped⟩ := exists_beginEntries h hpart
    have hleaf : ∀ part ∈ parts, b.leaf? part.1.1 = some (.str part.1.2) := fun part hpart =>
      hb.leaf?_eq (keys part hpart) (keys part hpart).atom_str (hshaped part hpart).1
    have hput : (parts.map entryOf).foldl (fun done entry => b.putEntry entry done) [] =
        parts.map entryOf := foldl_putEntry [] hleaf nodup
    have hmapping : a.mappingEntries place = .ok (parts.map entryOf, b) := by
      rw [mappingEntries, h.table, hflatten]
      dsimp only [bind, Except.bind]
      rw [hentries]
      have hsame : ({ a with nodes := nodes } : Assembly) = a := by rw [← h.table]
      rw [hsame, hbegin]
      dsimp only
      rw [hput]
      rfl
    obtain ⟨hfollows, hextends'⟩ := hb.fill (place + 1) hlies (by
      rw [hshape]
      intro q hq
      obtain ⟨entry, hentry, hq⟩ := List.mem_flatMap.mp hq
      obtain ⟨part, hpart, rfl⟩ := List.mem_map.mp hentry
      rcases List.mem_cons.mp hq with rfl | hq
      · exact (hshaped part hpart).1
      · exact List.mem_singleton.mp hq ▸ (hshaped part hpart).2)
    refine ⟨_, ?_, hfollows, hextends.trans hextends'⟩
    rw [Assembly.fill, h.table, Nodes.tag, Nodes.content, node, hshape]
    dsimp only
    rw [hmapping]
    rfl

/-- **A round**: all that waits is filled. -/
theorem exists_round (h : a.Follows nodes pending) (hle : ∀ place ∈ pending, least ≤ place) :
    ∃ b, pending.foldlM Assembly.fill a = .ok b ∧ b.Follows nodes [] ∧
      Extends (least + 1) a b := by
  induction pending generalizing a with
  | nil => exact ⟨a, rfl, h, .refl _ _⟩
  | cons place others ih =>
    obtain ⟨hplace, hothers⟩ := List.forall_mem_cons.mp hle
    obtain ⟨b, hfill, hb, hextends⟩ := exists_fill h
    obtain ⟨c, hrest, hc, hextends'⟩ := ih hb hothers
    refine ⟨c, ?_, hc, (hextends.mono (Nat.succ_le_succ hplace)).trans hextends'⟩
    rw [List.foldlM_cons, hfill]
    exact hrest

/-- **Every round goes further back**, so as many rounds as there are nodes leave nothing to be
    filled. -/
theorem exists_finish {rounds : Nat} (h : a.Follows nodes [])
    (hle : ∀ place ∈ a.begun, least ≤ place) (hrounds : nodes.size ≤ rounds + least) :
    ∃ b, finish rounds a = .ok b ∧ b.Follows nodes [] ∧ b.begun = [] ∧
      ∀ place, a.IsShaped place → b.IsShaped place := by
  -- By induction on the rounds.  What is begun in a round lies behind all that was begun before, so
  -- there are enough of them.
  induction rounds generalizing a least with
  | zero =>
    have hnone : a.begun = [] := List.eq_nil_iff_forall_not_mem.mpr fun place hplace => by
      obtain ⟨⟨v, hlies⟩, -⟩ := h.begun place hplace
      have hinside := hlies.inside
      have hbehind := hle place hplace
      omega
    exact ⟨a, rfl, h, hnone, fun _ hshaped => hshaped⟩
  | succ rounds ih =>
    rw [finish]
    cases hbegun : a.begun.isEmpty with
    | true => exact ⟨a, rfl, h, List.isEmpty_iff.mp hbegun, fun _ hshaped => hshaped⟩
    | false =>
      have hpending : Follows nodes a.begun.reverse { a with begun := [] } := by
        refine ⟨h.table, h.size, h.shared,
          fun place hplace => h.begun place (List.mem_reverse.mp hplace), List.forall_mem_nil _,
          h.lies, fun place hshaped => ?_⟩
        rcases h.filled place hshaped with hwaits | hwaits | hfilled
        · cases hwaits
        · exact .inl (List.mem_reverse.mpr hwaits)
        · exact .inr (.inr ⟨hfilled.shape, hfilled.parts⟩)
      obtain ⟨b, hround, hb, hextends⟩ := exists_round hpending fun place hplace =>
        hle place (List.mem_reverse.mp hplace)
      obtain ⟨c, hfinish, hc, hnone, hshaped⟩ := ih hb
        (fun place hplace => (hextends.begun place hplace).resolve_left (by exact List.not_mem_nil))
        (by omega)
      refine ⟨c, ?_, hc, hnone, fun place hplace =>
        hshaped place (hextends.shaped place hplace)⟩
      rw [if_neg Bool.false_ne_true, hround]
      exact hfinish

/-- **All nodes of a value get their shapes.** -/
theorem exists_ofDocument (hlies : Lies nodes 0 v) :
    ∃ b, ofDocument { nodes, hasAliases := false, isKnotted := false } = .ok b ∧
      b.Follows nodes [] ∧ b.begun = [] ∧ b.IsShaped 0 := by
  -- At first no place has a shape, so all that is said of places with one holds.
  have hnone : ∀ place, ¬ IsShaped
      { nodes, shapes := Array.replicate nodes.size none, isShared := false } place := by
    intro place hshaped
    simp only [IsShaped, Array.getD_eq_getD_getElem?, Array.getElem?_replicate] at hshaped
    split at hshaped <;> cases hshaped
  have hstart : Follows nodes []
      { nodes, shapes := Array.replicate nodes.size none, isShared := false } :=
    ⟨rfl, Array.size_replicate, rfl, List.forall_mem_nil _, List.forall_mem_nil _,
      fun place hshaped => absurd hshaped (hnone place),
      fun place hshaped => absurd hshaped (hnone place)⟩
  obtain ⟨a, hbegin, ha, -, hshaped⟩ := exists_begin hstart hlies
  obtain ⟨b, hfinish, hb, hbegun, hextends⟩ := exists_finish ha (fun _ _ => Nat.zero_le _)
    (show nodes.size ≤ (nodes.size + 1) + 0 by omega)
  refine ⟨b, ?_, hb, hbegun, hextends 0 hshaped⟩
  rw [ofDocument]
  dsimp only
  rw [hbegin]
  exact hfinish

end Assembly

/-! ### Values -/

section Values

variable {nodes : Nodes} {a : Assembly} {place : Nat} {v : Value} {values : Array Value}

/-- The values from a place on are those that lie there. -/
structure AreValues (nodes : Nodes) (a : Assembly) (least : Nat) (values : Array Value) : Prop where
  size : values.size = nodes.size
  value : ∀ {place v}, least ≤ place → a.IsShaped place → Lies nodes place v →
    values.getD place .endless = v

/-- The value of a shape whose parts have their values. -/
theorem Lies.value_shapeAt (hlies : Lies nodes place v) (hfilled : a.IsFilled nodes place)
    (hvalues : AreValues nodes a (place + 1) values) :
    placedValue false values place (nodes.shapeAt place) = v := by
  have hparts := hfilled.parts
  have hvalue : ∀ {part w}, part ∈ (nodes.shapeAt place).parts → Lies nodes part w →
      values.getD part .endless = w := fun hpart hw =>
    hvalues.value (hlies.parts _ hpart).1 (hparts _ hpart) hw
  -- A scalar has its value, and a collection those of its parts, all of which are filled.
  cases hlies with
  | atom inside atom node =>
    rw [(Lies.atom inside atom node).shapeAt_atom atom]
    rfl
  | list inside node behind each =>
    rename_i parts
    have hshape : nodes.shapeAt place = .list (parts.map (·.1)) := by
      rw [Nodes.shapeAt, Nodes.content, node]
    rw [hshape] at hvalue ⊢
    show Value.list ((parts.map (·.1)).map fun part => values.getD part .endless) = _
    rw [List.map_map]
    refine congrArg Value.list (List.map_congr_left fun part hpart => ?_)
    exact hvalue (List.mem_map_of_mem hpart) (each part hpart)
  | fields inside node behind nodup keys each =>
    rename_i parts
    have hshape : nodes.shapeAt place = .map (parts.map Assembly.entryOf) := by
      rw [Nodes.shapeAt, Nodes.content, node]
      rfl
    rw [hshape] at hvalue ⊢
    show Value.map ((parts.map Assembly.entryOf).map fun entry =>
      (values.getD entry.1 .endless, values.getD entry.2 .endless)) = _
    rw [List.map_map, Value.ofFields, List.map_map]
    refine congrArg Value.map (List.map_congr_left fun part hpart => ?_)
    have hmem := List.mem_map_of_mem (f := Assembly.entryOf) hpart
    exact Prod.ext
      (hvalue (List.mem_flatMap.mpr ⟨_, hmem, List.mem_cons_self⟩) (keys part hpart))
      (hvalue (List.mem_flatMap.mpr ⟨_, hmem, List.mem_cons_of_mem _ List.mem_cons_self⟩)
        (each part hpart))

/-- Nothing waits to be filled. -/
theorem Assembly.Follows.isFilled (h : a.Follows nodes []) (hbegun : a.begun = [])
    (hshaped : a.IsShaped place) : a.IsFilled nodes place := by
  rcases h.filled place hshaped with hwaits | hwaits | hfilled
  · cases hwaits
  · rw [hbegun] at hwaits
    cases hwaits
  · exact hfilled

/-- The value at a place, and all others. -/
theorem getD_set (values : Array Value) (h : place < values.size) (v : Value) (other : Nat) :
    (values.setIfInBounds place v).getD other .endless =
      if other = place then v else values.getD other .endless := by
  simp only [Array.getD_eq_getD_getElem?]
  split
  next heq =>
    subst heq
    simp [h]
  next hne => rw [Array.getElem?_setIfInBounds_ne (Ne.symm hne)]

/-- The value at one more place comes about. -/
theorem AreValues.set (hvalues : AreValues nodes a (place + 1) values)
    (hfilled : a.IsFilled nodes place) (hinside : place < nodes.size) :
    AreValues nodes a place
      (values.setIfInBounds place (placedValue false values place (nodes.shapeAt place))) := by
  refine ⟨Array.size_setIfInBounds.trans hvalues.size, fun {other w} hle hshaped hlies => ?_⟩
  rw [getD_set values (hvalues.size ▸ hinside)]
  split
  next heq =>
    subst heq
    exact hlies.value_shapeAt hfilled hvalues
  next hne => exact hvalues.value (by omega) hshaped hlies

/-- Places are filled from the back to the front. -/
theorem AreValues.foldl {step : Array Value → Nat → Array Value}
    (hstep : ∀ values place, place < nodes.size → AreValues nodes a (place + 1) values →
      AreValues nodes a place (step values place)) {count : Nat} (hcount : count ≤ nodes.size)
    (hvalues : AreValues nodes a count values) :
    AreValues nodes a 0 ((List.range count).reverse.foldl step values) := by
  induction count generalizing values with
  | zero => exact hvalues
  | succ count ih =>
    rw [List.range_succ, List.reverse_append, List.reverse_singleton, List.singleton_append,
      List.foldl_cons]
    exact ih (Nat.le_of_succ_le hcount) (hstep values count hcount hvalues)

/-- **The values come about** from the back to the front. -/
theorem areValues_unrollOnce (h : a.Follows nodes []) (hbegun : a.begun = [])
    (hsize : values.size = nodes.size) : AreValues nodes a 0 (unrollOnce a values) := by
  rw [unrollOnce, h.size]
  refine AreValues.foldl (fun values place hplace hvalues => ?_) (Nat.le_refl _)
    ⟨hsize, fun hle _ hlies => ?_⟩
  -- Values are computed from the back, so the parts of a place have theirs before it does.
  · cases hshape : a.shapes.getD place none with
    | some shape =>
      have hshaped : a.IsShaped place := by
        rw [Assembly.IsShaped, hshape]
        rfl
      have hfilled := h.isFilled hbegun hshaped
      obtain rfl := Option.some.inj (hshape.symm.trans hfilled.shape)
      rw [h.shared]
      exact hvalues.set hfilled hplace
    | none =>
      refine ⟨hvalues.size, fun {other w} hle hshaped hlies => ?_⟩
      have hne : place ≠ other := fun heq => by
        rw [Assembly.IsShaped, ← heq, hshape] at hshaped
        cases hshaped
      exact hvalues.value (by omega) hshaped hlies
  · have hinside := hlies.inside
    omega

/-- No part stands before what it is a part of. -/
theorem returnCount_eq (h : a.Follows nodes []) (hbegun : a.begun = []) : returnCount a = 0 := by
  rw [returnCount, List.countP_eq_zero]
  intro place _
  cases hshape : a.shapes.getD place none with
  | none => exact Bool.false_ne_true
  | some shape =>
    have hshaped : a.IsShaped place := by
      rw [Assembly.IsShaped, hshape]
      rfl
    obtain ⟨v, hlies⟩ := h.lies place hshaped
    obtain rfl := Option.some.inj (hshape.symm.trans (h.isFilled hbegun hshaped).shape)
    rw [Option.map_some, Option.any_some, List.any_eq_true]
    intro hreturn
    obtain ⟨part, hpart, hle⟩ := hreturn
    exact Nat.not_lt.mpr (of_decide_eq_true hle) (hlies.parts part hpart).1

/-- **The value of a document** is the one that lies at its first place. -/
theorem unrolled_eq (h : a.Follows nodes []) (hbegun : a.begun = []) (hshaped : a.IsShaped 0)
    (hlies : Lies nodes 0 v) :
    (unrolled { nodes, hasAliases := false, isKnotted := false } a).getD 0 .null = v := by
  have hunrollings : unrollings { nodes, hasAliases := false, isKnotted := false } a = 1 := by
    rw [unrollings, returnCount_eq h hbegun]
    rfl
  have hvalue : ∀ values : Array Value, values.size = nodes.size →
      (unrollOnce a values).getD 0 .null = v := by
    intro values hsize
    have hvalues := areValues_unrollOnce h hbegun hsize
    have hinside : 0 < (unrollOnce a values).size := hvalues.size ▸ hlies.inside
    rw [← hvalues.value (Nat.le_refl 0) hshaped hlies]
    simp [Array.getD, hinside]
  rw [unrolled, hunrollings]
  exact hvalue _ (by rw [Array.size_map, h.size])

end Values

/-- **What is written is read again.** -/
theorem Kept.read_write {height : Nat} {fields : List (String × Value)}
    (h : Kept height (.ofFields fields)) (hne : fields ≠ [])
    (hheight : height ≤ Reader.depthLimit) :
    read (write (.ofFields fields)) = .ok (.ofFields fields) := by
  have hstand : StandIn (nodesOf 0 (.ofFields fields)).toArray 0 (nodesOf 0 (.ofFields fields)) :=
    ⟨[], [], by simp, rfl⟩
  have hlies := h.lies hstand
  obtain ⟨a, hassembly, hfollows, hbegun, hshaped⟩ := Assembly.exists_ofDocument hlies
  rw [read, h.ofText?_write hne hheight]
  dsimp only [bind, Except.bind]
  rw [hassembly]
  exact congrArg Except.ok (unrolled_eq hfollows hbegun hshaped hlies)

end PipelineCompiler.Yaml
