import PipelineCompiler.Proofs.Yaml.Blocks
import PipelineCompiler.Yaml.Reader

namespace PipelineCompiler.Yaml

/-!
# From tokens to nodes

* `nodesOf` — the nodes of a value: its own, and behind it those of its parts;
* `Reader.IsRead` — the tokens of a value are read as its nodes, whatever stands behind them;
* `Kept.isRead` — this is so for all data that comes back;
* `Kept.ofText?_write` — the nodes of a document are those of its value.

A collection takes its place before its parts are read, so the nodes stand in the order in which
their tokens do.
-/

/-! ### Nodes -/

mutual

/-- The nodes of a value whose own node has a place, in the order of their places. -/
def nodesOf (place : Nat) : Value → List Node
  | .list items =>
    { tag := .seq, content := .sequence (itemPlaces (place + 1) items) } ::
      itemNodes (place + 1) items
  | .map entries =>
    { tag := .map, content := .mapping (entryPlaces (place + 1) entries) } ::
      entryNodes (place + 1) entries
  | v => [scalarNode v]

/-- The nodes of items. -/
def itemNodes (place : Nat) : List Value → List Node
  | [] => []
  | item :: rest =>
    nodesOf place item ++ itemNodes (place + (nodesOf place item).length) rest

/-- The places of items. -/
def itemPlaces (place : Nat) : List Value → List Nat
  | [] => []
  | item :: rest => place :: itemPlaces (place + (nodesOf place item).length) rest

/-- The nodes of entries. -/
def entryNodes (place : Nat) : List (Value × Value) → List Node
  | [] => []
  | (key, value) :: rest =>
    scalarNode key :: (nodesOf (place + 1) value ++
      entryNodes (place + 1 + (nodesOf (place + 1) value).length) rest)

/-- The places of entries. -/
def entryPlaces (place : Nat) : List (Value × Value) → List Entry
  | [] => []
  | (_, value) :: rest =>
    (place, place + 1) :: entryPlaces (place + 1 + (nodesOf (place + 1) value).length) rest

end

/-- The node of a scalar. -/
theorem Atom.nodesOf_eq {v : Value} (h : Atom v) (place : Nat) :
    nodesOf place v = [scalarNode v] := by
  cases h <;> rw [nodesOf] <;> simp

/-- The entries of a mapping with text keys. -/
def entriesOf (fields : List (String × Value)) : List (Value × Value) :=
  fields.map fun field => (.str field.1, field.2)

/-! ### Reading -/

namespace Reader

variable {r : Reader} {fuel depth height : Nat} {rest : List Token} {bare : Bool}

/-- The reader with other tokens left, and more nodes. -/
def behind (r : Reader) (rest : List Token) (nodes : List Node) : Reader :=
  { r with tokens := rest, nodes := r.nodes ++ (nodes.map some).toArray }

/-- One after another. -/
theorem behind_behind (r : Reader) (first rest : List Token) (nodes others : List Node) :
    (r.behind first nodes).behind rest others = r.behind rest (nodes ++ others) := by
  simp [behind, Array.append_assoc]

/-- The next place. -/
theorem size_behind (r : Reader) (rest : List Token) (nodes : List Node) :
    (r.behind rest nodes).nodes.size = r.nodes.size + nodes.length := by
  simp [behind]

/-- A node is put at the place that was taken for it. -/
theorem fill_behind (r : Reader) (rest : List Token) (node : Node) (nodes : List Node) :
    (behind { r with nodes := r.nodes.push none } rest nodes).fill r.nodes.size node =
      r.behind rest (node :: nodes) := by
  have harray : (r.nodes.push none ++ (nodes.map some).toArray).setIfInBounds r.nodes.size
      (some node) = r.nodes ++ ((node :: nodes).map some).toArray := by
    apply Array.toList_inj.mp
    simp
  simp only [behind, fill, harray]

/-- The tokens that a value can start with. -/
inductive IsFirst (bare : Bool) : Token → Prop
  | scalar (text : String) (plain : Bool) : IsFirst bare (.scalar text plain)
  | bracketOpen : IsFirst bare .bracketOpen
  | braceOpen : IsFirst bare .braceOpen
  | sequenceOpen : IsFirst bare .sequenceOpen
  | mappingOpen : IsFirst bare .mappingOpen
  | dash (h : bare = true) : IsFirst bare .dash

/-- A value starts with one of them. -/
theorem exists_first {v : Value} (h : Kept depth v) (bare : Bool) :
    ∃ first more, Yaml.tokens bare v = first :: more ∧ IsFirst bare first := by
  -- Brackets and braces for what is empty, the start of a block or a dash for the rest.
  cases h with
  | atom h => exact ⟨_, [], h.tokens_eq bare, .scalar _ _⟩
  | list each =>
    rename_i items
    cases items with
    | nil => exact ⟨_, _, by rw [Yaml.tokens]; rfl, .bracketOpen⟩
    | cons v others =>
      rw [tokens_list (List.cons_ne_nil v others)]
      cases bare with
      | true => exact ⟨_, _, by rw [if_pos rfl, itemTokens], .dash rfl⟩
      | false => exact ⟨_, _, if_neg Bool.false_ne_true, .sequenceOpen⟩
  | fields nodup keys each =>
    rename_i fields
    cases fields with
    | nil => exact ⟨_, _, by rw [Value.ofFields, Yaml.tokens]; rfl, .braceOpen⟩
    | cons field others =>
      exact ⟨_, _, tokens_fields (List.cons_ne_nil field others) bare, .mappingOpen⟩

/-- **A node without properties** is what its content is. -/
theorem node_eq {bareDashes : Bool} {first : Token} {more : List Token}
    (htokens : r.tokens = first :: more) (hfirst : IsFirst bare first)
    (hdepth : depth ≤ depthLimit) {found : Node} {nodes : List Node}
    (h : content true bareDashes false none (depth + 1) fuel { r with nodes := r.nodes.push none } =
      .ok (found, behind { r with nodes := r.nodes.push none } rest nodes)) :
    node true bareDashes depth (fuel + 1) r =
      .ok (r.nodes.size, r.behind rest (found :: nodes)) := by
  have hpeek : r.peek = first := by
    rw [peek, htokens]
    rfl
  have hproperties : r.properties = .ok (none, none, r) := by
    rw [properties, htokens]
    cases hfirst <;> rfl
  -- No anchor and no tag stands in front, so the content comes at once.
  have hread : node true bareDashes depth (fuel + 1) r =
      (content true bareDashes false none (depth + 1) fuel { r with nodes := r.nodes.push none } >>=
        fun found => .ok (r.nodes.size, found.2.fill r.nodes.size found.1)) := by
    rw [node, hpeek, hproperties]
    cases hfirst
    all_goals
      dsimp only [bind, Except.bind, fullTag]
      rw [hpeek]
      dsimp only [Option.any_none]
      rw [if_neg Bool.false_ne_true, if_neg (Nat.not_lt.mpr hdepth)]
      rfl
  rw [hread, h]
  exact congrArg (fun r => Except.ok (_, r)) (fill_behind r rest found nodes)

/-- The tokens of a value are read as its nodes, where so many collections may lie inside one
    another. -/
def IsRead (height : Nat) (v : Value) : Prop :=
  ∀ (r : Reader) (rest : List Token) (bare bareDashes : Bool) (fuel depth : Nat),
    r.tokens = Yaml.tokens bare v ++ rest → 5 * (Yaml.tokens bare v).length ≤ fuel →
    (bare = true → bareDashes = true ∧ rest.headD .streamEnd ≠ .dash) →
    depth + height ≤ depthLimit →
      node true bareDashes depth fuel r = .ok (r.nodes.size, r.behind rest (nodesOf r.nodes.size v))

/-- The next token is passed. -/
theorem step_eq {first : Token} (htokens : r.tokens = first :: rest) :
    r.peek = first ∧ r.step = r.behind rest [] := by
  refine ⟨?_, ?_⟩
  · rw [peek, htokens]
    rfl
  · rw [step, htokens]
    simp [behind]

/-- The first token of a value is no end of a part of a mapping. -/
theorem not_mem_mappingEnds {first : Token} (h : IsFirst bare first) :
    first ∉ [.key, .value, .blockClose] := by
  cases h <;> simp

/-- The first token of an item is no end of an item. -/
theorem not_mem_itemEnds {first : Token} (h : IsFirst false first) :
    first ∉ [.dash, .key, .value, .blockClose] ∧ first ∉ [.dash, .blockClose] := by
  cases h with
  | dash h => cases h
  | scalar | bracketOpen | braceOpen | sequenceOpen | mappingOpen => simp

/-- Behind a mark a value may be absent.  When it is there, it is read. -/
theorem part_eq {v : Value} (hkept : Kept height v) (hread : IsRead height v) {mark : Token}
    (htokens : r.tokens = mark :: (Yaml.tokens bare v ++ rest)) (bareDashes : Bool)
    {ends : List Token} (hends : ∀ first, IsFirst bare first → first ∉ ends)
    (hfuel : 5 * (Yaml.tokens bare v).length < fuel)
    (hbare : bare = true → bareDashes = true ∧ rest.headD .streamEnd ≠ .dash)
    (hdepth : depth + height ≤ depthLimit) :
    r.peek = mark ∧ optionalNode true bareDashes ends depth fuel r.step =
      .ok (r.nodes.size, r.behind rest (nodesOf r.nodes.size v)) := by
  obtain ⟨fuel, rfl⟩ := Nat.exists_eq_succ_of_ne_zero (Nat.ne_zero_of_lt hfuel)
  obtain ⟨first, more, hfirst, hvalue⟩ := exists_first hkept bare
  have hstep : r.step.tokens = Yaml.tokens bare v ++ rest := by
    rw [step, htokens]
    rfl
  -- The value begins with a token of its own, which none of those at the end is.
  have hsees : r.step.sees ends = false := by
    rw [sees, peek, hstep, hfirst]
    exact Bool.eq_false_iff.mpr fun h => hends first hvalue (List.contains_iff_mem.mp h)
  refine ⟨(step_eq htokens).1, ?_⟩
  rw [optionalNode, hsees, if_neg Bool.false_ne_true]
  exact hread _ _ _ _ _ _ hstep (Nat.le_of_lt_succ hfuel) hbare hdepth

/-- **The items of a block** are read up to its end. -/
theorem blockItems_eq {items : List Value} (hkept : ∀ v ∈ items, Kept height v)
    (hread : ∀ v ∈ items, IsRead height v)
    (htokens : r.tokens = itemTokens items ++ .blockClose :: rest)
    (hfuel : 0 < fuel ∧ 5 * (itemTokens items).length ≤ fuel + 3)
    (hdepth : depth + height ≤ depthLimit) :
    blockItems depth fuel r =
      .ok (itemPlaces r.nodes.size items, r.behind rest (itemNodes r.nodes.size items)) := by
  -- By induction on the items, each of which takes a dash and its own tokens.
  induction items generalizing r fuel with
  | nil =>
    obtain ⟨fuel, rfl⟩ := Nat.exists_eq_succ_of_ne_zero (Nat.ne_zero_of_lt hfuel.1)
    obtain ⟨hpeek, hstep⟩ := step_eq htokens
    rw [blockItems, hpeek, hstep]
    rfl
  | cons v others ih =>
    obtain ⟨fuel, rfl⟩ := Nat.exists_eq_succ_of_ne_zero (Nat.ne_zero_of_lt hfuel.1)
    rw [itemTokens, List.cons_append, List.append_assoc] at htokens
    simp only [itemTokens, List.length_cons, List.length_append] at hfuel
    obtain ⟨hpeek, hitem⟩ := part_eq (hkept v List.mem_cons_self) (hread v List.mem_cons_self)
      htokens false (fun _ h => (not_mem_itemEnds h).2)
      (show _ < fuel by omega) (absurd · Bool.false_ne_true) hdepth
    have hothers := ih (fun w hw => hkept w (List.mem_cons_of_mem v hw))
      (fun w hw => hread w (List.mem_cons_of_mem v hw))
      (r := r.behind (itemTokens others ++ .blockClose :: rest) (nodesOf r.nodes.size v)) rfl
      (show 0 < fuel ∧ _ ≤ fuel + 3 by omega)
    rw [size_behind, behind_behind] at hothers
    rw [blockItems, hpeek]
    dsimp only
    rw [hitem]
    dsimp only [bind, Except.bind]
    rw [hothers]
    rfl

/-- **The items of a sequence that is not indented** are read up to the token behind them. -/
theorem bareItems_eq {items : List Value} (hkept : ∀ v ∈ items, Kept height v)
    (hread : ∀ v ∈ items, IsRead height v) (htokens : r.tokens = itemTokens items ++ rest)
    (hfuel : 0 < fuel ∧ 5 * (itemTokens items).length ≤ fuel + 3)
    (hrest : rest.headD .streamEnd ≠ .dash) (hdepth : depth + height ≤ depthLimit) :
    bareItems depth fuel r =
      .ok (itemPlaces r.nodes.size items, r.behind rest (itemNodes r.nodes.size items)) := by
  -- By induction on the items.  What follows the last one is no dash, so that the sequence ends
  -- without a token.
  induction items generalizing r fuel with
  | nil =>
    obtain ⟨fuel, rfl⟩ := Nat.exists_eq_succ_of_ne_zero (Nat.ne_zero_of_lt hfuel.1)
    have hpeek : r.peek ≠ .dash := by
      rw [peek, htokens]
      exact hrest
    have hself : r.behind rest [] = r := by
      rw [← show r.tokens = rest from htokens]
      simp [behind]
    rw [bareItems]
    split
    · contradiction
    · exact congrArg (fun r => Except.ok ([], r)) hself.symm
  | cons v others ih =>
    obtain ⟨fuel, rfl⟩ := Nat.exists_eq_succ_of_ne_zero (Nat.ne_zero_of_lt hfuel.1)
    rw [itemTokens, List.cons_append, List.append_assoc] at htokens
    simp only [itemTokens, List.length_cons, List.length_append] at hfuel
    obtain ⟨hpeek, hitem⟩ := part_eq (hkept v List.mem_cons_self) (hread v List.mem_cons_self)
      htokens false (fun _ h => (not_mem_itemEnds h).1)
      (show _ < fuel by omega) (absurd · Bool.false_ne_true) hdepth
    have hothers := ih (fun w hw => hkept w (List.mem_cons_of_mem v hw))
      (fun w hw => hread w (List.mem_cons_of_mem v hw))
      (r := r.behind (itemTokens others ++ rest) (nodesOf r.nodes.size v)) rfl
      (show 0 < fuel ∧ _ ≤ fuel + 3 by omega)
    rw [size_behind, behind_behind] at hothers
    rw [bareItems, hpeek]
    dsimp only
    rw [hitem]
    dsimp only [bind, Except.bind]
    rw [hothers]
    rfl

/-- The node of a value, and those of its parts behind it, are what its tokens are read as when its
    own place is taken. -/
structure HasContent (height : Nat) (v : Value) (own : Nat → Node) (parts : Nat → List Node) :
    Prop where
  nodes (place : Nat) : nodesOf place v = own (place + 1) :: parts (place + 1)
  read {r : Reader} {rest : List Token} {bare bareDashes : Bool} {fuel depth : Nat} :
    r.tokens = Yaml.tokens bare v ++ rest → 5 * (Yaml.tokens bare v).length ≤ fuel + 1 →
    (bare = true → bareDashes = true ∧ rest.headD .streamEnd ≠ .dash) →
    depth + height ≤ depthLimit + 1 →
      content true bareDashes false none depth fuel r =
        .ok (own r.nodes.size, r.behind rest (parts r.nodes.size))

/-- So the value is read as its nodes. -/
theorem HasContent.isRead {v : Value} {own : Nat → Node} {parts : Nat → List Node}
    (h : HasContent height v own parts) (hkept : Kept height v) : IsRead height v := by
  intro r rest bare bareDashes fuel depth htokens hfuel hbare hdepth
  obtain ⟨first, more, hfirst, hstarts⟩ := exists_first hkept bare
  have hpos : 0 < (Yaml.tokens bare v).length := hfirst ▸ Nat.succ_pos _
  obtain ⟨fuel, rfl⟩ := Nat.exists_eq_add_of_le' (show 1 ≤ fuel by omega)
  have hcontent := h.read (r := { r with nodes := r.nodes.push none }) htokens hfuel hbare
    (show depth + 1 + height ≤ depthLimit + 1 by omega)
  rw [show (r.nodes.push none).size = r.nodes.size + 1 from Array.size_push none] at hcontent
  rw [h.nodes]
  exact node_eq (by rw [htokens, hfirst]; rfl) hstarts (by omega) hcontent

/-- A scalar is its node. -/
theorem hasContent_atom {v : Value} (h : Atom v) :
    HasContent height v (fun _ => scalarNode v) fun _ => [] := by
  refine ⟨h.nodesOf_eq, ?_⟩
  intro r rest bare bareDashes fuel depth htokens hfuel hbare hdepth
  rw [h.tokens_eq, List.singleton_append] at htokens
  rw [h.tokens_eq, List.length_singleton] at hfuel
  obtain ⟨fuel, rfl⟩ := Nat.exists_eq_add_of_le' (show 1 ≤ fuel by omega)
  obtain ⟨hpeek, hstep⟩ := step_eq htokens
  rw [content, hpeek, hstep]
  rfl

/-- **A scalar** is read as its node. -/
theorem isRead_atom {v : Value} (h : Atom v) : IsRead height v :=
  (hasContent_atom h).isRead (.atom h)

/-- The value behind a key, which is followed by another key or by the end of the block. -/
theorem headD_fields (fields : List (String × Value)) (rest : List Token) :
    (fields.flatMap fieldTokens ++ .blockClose :: rest).headD .streamEnd ≠ .dash := by
  cases fields with
  | nil => exact nofun
  | cons field others => exact nofun

/-- **The entries of a block** are read up to its end. -/
theorem blockEntries_eq {fields : List (String × Value)}
    (hkeys : ∀ field ∈ fields, Scalar.isKept field.1 = true)
    (hkept : ∀ field ∈ fields, Kept height field.2)
    (hread : ∀ field ∈ fields, IsRead height field.2)
    (htokens : r.tokens = fields.flatMap fieldTokens ++ .blockClose :: rest)
    (hfuel : 0 < fuel ∧ 5 * (fields.flatMap fieldTokens).length ≤ fuel + 3)
    (hdepth : depth + height ≤ depthLimit) :
    blockEntries depth fuel r =
      .ok (entryPlaces r.nodes.size (entriesOf fields),
        r.behind rest (entryNodes r.nodes.size (entriesOf fields))) := by
  -- By induction on the entries: the tokens of the key come first and those of the value behind
  -- them.
  induction fields generalizing r fuel with
  | nil =>
    obtain ⟨fuel, rfl⟩ := Nat.exists_eq_succ_of_ne_zero (Nat.ne_zero_of_lt hfuel.1)
    obtain ⟨hpeek, hstep⟩ := step_eq htokens
    rw [blockEntries, hpeek, hstep]
    rfl
  | cons field others ih =>
    obtain ⟨fuel, rfl⟩ := Nat.exists_eq_add_of_le' (show 2 ≤ fuel by
      simp only [List.flatMap_cons, List.length_append, fieldTokens, List.length_cons] at hfuel
      omega)
    have hkey : Atom (.str field.1) := .str (hkeys field List.mem_cons_self)
    have hbehind := headD_fields others rest
    generalize htail : others.flatMap fieldTokens ++ .blockClose :: rest = tail at hbehind
    rw [List.flatMap_cons, List.append_assoc, htail, fieldTokens] at htokens
    simp only [List.flatMap_cons, List.length_append, fieldTokens, List.length_cons] at hfuel
    have hkeyTokens : r.tokens = .key :: (Yaml.tokens false (.str field.1) ++
        .value :: (Yaml.tokens (isSimpleScalar none (.str field.1)) field.2 ++ tail)) := by
      rw [hkey.tokens_eq]
      exact htokens
    obtain ⟨hpeek, hfirst⟩ := part_eq (.atom hkey) (isRead_atom hkey) hkeyTokens true
      (fun _ h => not_mem_mappingEnds h)
      (show _ < fuel + 1 by rw [hkey.tokens_eq, List.length_singleton]; omega)
      (absurd · Bool.false_ne_true) hdepth
    obtain ⟨hmark, hvalue⟩ := part_eq (hkept field List.mem_cons_self)
      (hread field List.mem_cons_self)
      (r := r.behind (.value :: (Yaml.tokens (isSimpleScalar none (.str field.1)) field.2 ++ tail))
        (nodesOf r.nodes.size (.str field.1))) rfl true
      (fun _ h => not_mem_mappingEnds h) (show _ < fuel by omega) (fun _ =>
        ⟨rfl, hbehind⟩) hdepth
    have hothers := ih (fun other hother => hkeys other (List.mem_cons_of_mem field hother))
      (fun other hother => hkept other (List.mem_cons_of_mem field hother))
      (fun other hother => hread other (List.mem_cons_of_mem field hother))
      (r := r.behind tail (scalarNode (.str field.1) :: nodesOf (r.nodes.size + 1) field.2))
      htail.symm (show 0 < fuel + 1 ∧ _ ≤ fuel + 1 + 3 by omega)
    rw [hkey.nodesOf_eq, size_behind, behind_behind, List.length_singleton] at hvalue
    rw [size_behind, behind_behind, List.length_cons] at hothers
    have hplace : r.nodes.size + (nodesOf (r.nodes.size + 1) field.2).length + 1 =
        r.nodes.size + 1 + (nodesOf (r.nodes.size + 1) field.2).length := by omega
    rw [blockEntries, hpeek]
    dsimp only
    rw [hfirst, hkey.nodesOf_eq]
    dsimp only [bind, Except.bind]
    rw [blockValue]
    rw [hkey.nodesOf_eq] at hmark
    rw [hmark]
    dsimp only
    rw [hvalue]
    dsimp only
    rw [List.singleton_append, hothers, ← Nat.add_assoc, hplace]
    rfl

/-- Nothing stands between brackets. -/
theorem bracketItems_empty (htokens : r.tokens = .bracketClose :: rest) (hfuel : 0 < fuel) :
    bracketItems true depth fuel r = .ok ([], r.behind rest []) := by
  obtain ⟨fuel, rfl⟩ := Nat.exists_eq_succ_of_ne_zero (Nat.ne_zero_of_lt hfuel)
  obtain ⟨hpeek, hstep⟩ := step_eq htokens
  rw [bracketItems, hpeek, hstep]
  rfl

/-- Nothing stands between braces. -/
theorem braceEntries_empty (htokens : r.tokens = .braceClose :: rest) (hfuel : 0 < fuel) :
    braceEntries true depth fuel r = .ok ([], r.behind rest []) := by
  obtain ⟨fuel, rfl⟩ := Nat.exists_eq_succ_of_ne_zero (Nat.ne_zero_of_lt hfuel)
  obtain ⟨hpeek, hstep⟩ := step_eq htokens
  rw [braceEntries, hpeek, hstep]
  rfl

/-- A list is its node, with the nodes of its items behind it. -/
theorem hasContent_list {items : List Value} (hkept : ∀ v ∈ items, Kept height v)
    (hread : ∀ v ∈ items, IsRead height v) :
    HasContent (height + 1) (.list items)
      (fun place => { tag := .seq, content := .sequence (itemPlaces place items) })
      (itemNodes · items) := by
  refine ⟨fun place => by rw [nodesOf], ?_⟩
  intro r rest bare bareDashes fuel depth htokens hfuel hbare hdepth
  -- An empty list is written with brackets, others as a block, which in a mapping is not indented.
  by_cases hne : items = []
  · subst hne
    rw [Yaml.tokens, List.isEmpty_nil, if_pos rfl] at htokens hfuel
    rw [List.cons_append, List.singleton_append] at htokens
    obtain ⟨fuel, rfl⟩ := Nat.exists_eq_add_of_le' (show 2 ≤ fuel by simp at hfuel; omega)
    obtain ⟨hpeek, hstep⟩ := step_eq htokens
    rw [content, hpeek, hstep]
    dsimp only
    rw [bracketItems_empty (r := r.behind _ []) rfl (Nat.succ_pos fuel), behind_behind]
    rfl
  · rw [tokens_list hne] at htokens hfuel
    cases bare with
    | true =>
      rw [if_pos rfl] at htokens hfuel
      obtain ⟨rfl, hrest⟩ := hbare rfl
      have hpos : 0 < (itemTokens items).length := by
        obtain ⟨v, others, rfl⟩ := List.exists_cons_of_ne_nil hne
        exact Nat.succ_pos _
      obtain ⟨fuel, rfl⟩ := Nat.exists_eq_add_of_le' (show 2 ≤ fuel by omega)
      have hpeek : r.peek = .dash := by
        obtain ⟨v, others, rfl⟩ := List.exists_cons_of_ne_nil hne
        exact (step_eq htokens).1
      rw [content, hpeek]
      dsimp only
      rw [bareItems_eq hkept hread htokens ⟨Nat.succ_pos _, by omega⟩ hrest (by omega)]
      rfl
    | false =>
      rw [if_neg Bool.false_ne_true, List.cons_append, List.append_assoc] at htokens
      rw [if_neg Bool.false_ne_true, List.length_cons, List.length_append] at hfuel
      obtain ⟨fuel, rfl⟩ := Nat.exists_eq_add_of_le' (show 2 ≤ fuel by omega)
      obtain ⟨hpeek, hstep⟩ := step_eq htokens
      have hitems := blockItems_eq
        (r := r.behind (itemTokens items ++ .blockClose :: rest) []) hkept hread rfl
        ⟨Nat.succ_pos fuel, by omega⟩ (show depth + _ ≤ _ by omega)
      rw [behind_behind, size_behind] at hitems
      rw [content, hpeek, hstep]
      dsimp only
      rw [List.singleton_append, hitems, List.nil_append]
      cases bareDashes <;> rfl

/-- A mapping is its node, with the nodes of its keys and values behind it. -/
theorem hasContent_fields {fields : List (String × Value)}
    (hkeys : ∀ field ∈ fields, Scalar.isKept field.1 = true)
    (hkept : ∀ field ∈ fields, Kept height field.2)
    (hread : ∀ field ∈ fields, IsRead height field.2) :
    HasContent (height + 1) (.ofFields fields)
      (fun place =>
        { tag := .map, content := .mapping (entryPlaces place (entriesOf fields)) })
      (entryNodes · (entriesOf fields)) := by
  refine ⟨fun place => by rw [Value.ofFields, nodesOf]; rfl, ?_⟩
  intro r rest bare bareDashes fuel depth htokens hfuel hbare hdepth
  -- An empty mapping is written with braces, others as a block.
  by_cases hne : fields = []
  · subst hne
    rw [Value.ofFields, Yaml.tokens, List.map_nil, List.isEmpty_nil, if_pos rfl] at htokens hfuel
    rw [List.cons_append, List.singleton_append] at htokens
    obtain ⟨fuel, rfl⟩ := Nat.exists_eq_add_of_le' (show 2 ≤ fuel by simp at hfuel; omega)
    obtain ⟨hpeek, hstep⟩ := step_eq htokens
    rw [content, hpeek, hstep]
    dsimp only
    rw [braceEntries_empty (r := r.behind _ []) rfl (Nat.succ_pos fuel), behind_behind]
    rfl
  · rw [tokens_fields hne] at htokens hfuel
    rw [List.cons_append, List.append_assoc] at htokens
    rw [List.length_cons, List.length_append] at hfuel
    obtain ⟨fuel, rfl⟩ := Nat.exists_eq_add_of_le' (show 2 ≤ fuel by omega)
    obtain ⟨hpeek, hstep⟩ := step_eq htokens
    have hentries := blockEntries_eq
      (r := r.behind (fields.flatMap fieldTokens ++ .blockClose :: rest) []) hkeys hkept hread rfl
      ⟨Nat.succ_pos fuel, by omega⟩ (show depth + _ ≤ _ by omega)
    rw [behind_behind, size_behind] at hentries
    rw [content, hpeek, hstep]
    dsimp only
    rw [List.singleton_append, hentries, List.nil_append]
    cases bareDashes <;> rfl

end Reader

/-- **Data that comes back** is read as its nodes. -/
theorem Kept.isRead {height : Nat} {v : Value} (h : Kept height v) : Reader.IsRead height v := by
  induction h with
  | atom h => exact Reader.isRead_atom h
  | list each ih => exact (Reader.hasContent_list each ih).isRead (.list each)
  | fields nodup keys each ih =>
    have hkeys := fun field hfield => isKept_of_isKeptKey (keys field hfield)
    exact (Reader.hasContent_fields hkeys each ih).isRead (.fields nodup keys each)

/-- **The nodes of a document** are those of its value. -/
theorem Kept.ofText?_write {height : Nat} {fields : List (String × Value)}
    (h : Kept height (.ofFields fields)) (hne : fields ≠ [])
    (hheight : height ≤ Reader.depthLimit) :
    Document.ofText? (write (.ofFields fields)) = .ok (some
      { nodes := (nodesOf 0 (.ofFields fields)).toArray
        hasAliases := false
        isKnotted := false }) := by
  -- The tokens of the text are those of the value, the node is read from them, and the document
  -- holds nothing else.
  have hscan := h.scan_write hne
  obtain ⟨more, hfirst⟩ : ∃ more, tokens false (.ofFields fields) = .mappingOpen :: more :=
    ⟨_, tokens_fields hne false⟩
  have hnode := h.isRead
    { tokens := tokens false (.ofFields fields) ++ [.streamEnd]
      handles := Reader.defaultHandles } [.streamEnd] false false
    (5 * (tokens false (.ofFields fields) ++ [Token.streamEnd]).length + 5) 0 rfl
    (by rw [List.length_append]; omega) nofun (by omega)
  have hhead : (tokens false (.ofFields fields) ++ [Token.streamEnd]).headD .streamEnd =
      .mappingOpen := by
    rw [hfirst]
    rfl
  rw [Document.ofText?, hscan]
  dsimp only
  rw [hhead, Reader.document, hhead]
  dsimp only
  rw [hnode]
  have hnodes : (Reader.behind
      { tokens := tokens false (.ofFields fields) ++ [.streamEnd]
        handles := Reader.defaultHandles } [.streamEnd]
      (nodesOf 0 (.ofFields fields))).result =
        { nodes := (nodesOf 0 (.ofFields fields)).toArray
          hasAliases := false
          isKnotted := false } := by
    simp [Reader.behind, Reader.result, Function.comp_def]
  exact congrArg (fun d => Except.ok (some d)) hnodes

end PipelineCompiler.Yaml
