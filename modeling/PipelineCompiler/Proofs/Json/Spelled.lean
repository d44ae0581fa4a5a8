import PipelineCompiler.Proofs.Json.Items

namespace PipelineCompiler.Json

/-!
# The texts of data

What a document looks like as JSON, whatever blanks stand between its parts.

* `Shaped` — data that JSON has a form for, up to a depth;
* `Gaps`, `enclosed` — parts between brackets, with blanks around them;
* `Spells` — the texts of such data;
* `Shaped.spells` — such data is written as one of its texts, with any indentation.
-/

/-! ### Data -/

/-- Data that JSON has a form for: scalars whose numbers are not too long, lists, and mappings with
    different text keys, not more than so many of these inside one another. -/
inductive Shaped : Nat → Value → Prop
  | null (depth : Nat) : Shaped depth .null
  | bool (depth : Nat) (b : Bool) : Shaped depth (.bool b)
  | int (depth : Nat) {i : Int} (short : Number.isTooLong i = false) : Shaped depth (.int i)
  | float (depth : Nat) (x : Float) : Shaped depth (.float x)
  | str (depth : Nat) (s : String) : Shaped depth (.str s)
  | list {depth : Nat} {items : List Value} (each : ∀ v ∈ items, Shaped depth v) :
    Shaped (depth + 1) (.list items)
  | fields {depth : Nat} {fields : List (String × Value)} (nodup : (Keyed.keys fields).Nodup)
      (each : ∀ field ∈ fields, Shaped depth field.2) : Shaped (depth + 1) (.ofFields fields)

/-- What is not too deep may lie deeper. -/
theorem Shaped.mono {depth deeper : Nat} {v : Value} (h : Shaped depth v) (hle : depth ≤ deeper) :
    Shaped deeper v := by
  induction h generalizing deeper with
  | null => exact .null deeper
  | bool => exact .bool deeper _
  | int => exact .int deeper ‹_›
  | float => exact .float deeper _
  | str => exact .str deeper _
  | list _ ih =>
    obtain ⟨less, rfl⟩ := Nat.exists_eq_add_of_le' (Nat.le_trans (Nat.le_add_left 1 _) hle)
    exact .list fun v hv => ih v hv (Nat.le_of_succ_le_succ hle)
  | fields nodup _ ih =>
    obtain ⟨less, rfl⟩ := Nat.exists_eq_add_of_le' (Nat.le_trans (Nat.le_add_left 1 _) hle)
    exact .fields nodup fun field hfield => ih field hfield (Nat.le_of_succ_le_succ hle)

/-- A mapping with one field. -/
theorem Shaped.field {depth : Nat} {v : Value} (h : Shaped depth v) (key : String) :
    Shaped (depth + 1) (.ofFields [(key, v)]) :=
  .fields (List.pairwise_singleton _ _) (List.forall_mem_singleton.mpr h)

/-- A list of texts. -/
theorem shaped_ofTexts (depth : Nat) (texts : List String) :
    Shaped (depth + 1) (.ofTexts texts) := by
  refine .list fun v hv => ?_
  obtain ⟨text, -, rfl⟩ := List.mem_map.mp hv
  exact .str depth text

/-! ### Parts between brackets -/

/-- The characters between the parts of a list or mapping: behind the opening bracket, behind a
    separator, before the closing bracket, and behind the colon of an entry. -/
structure Gaps where
  first : List Char
  between : List Char
  last : List Char
  colon : List Char

/-- Characters that are all blanks. -/
def Blank (cs : List Char) : Prop := ∀ c ∈ cs, isSpace c = true

/-- Gaps that consist of blanks. -/
structure Gaps.Blank (g : Gaps) : Prop where
  first : Json.Blank g.first
  between : Json.Blank g.between
  last : Json.Blank g.last
  colon : Json.Blank g.colon

/-- What follows a part: the others, and the closing bracket. -/
def following (g : Gaps) (closing : Char) : List (List Char) → List Char
  | [] => g.last ++ [closing]
  | part :: rest => ',' :: (g.between ++ (part ++ following g closing rest))

/-- Parts between brackets. -/
def enclosed (g : Gaps) (opening closing : Char) : List (List Char) → List Char
  | [] => [opening, closing]
  | part :: rest => opening :: (g.first ++ (part ++ following g closing rest))

/-- An entry of a mapping. -/
def entryChars (g : Gaps) (name : String) (text : List Char) : List Char :=
  (quote name).toList ++ ':' :: (g.colon ++ text)

/-! ### Texts -/

/-- The texts of data, with blanks between the parts. -/
inductive Spells : Nat → Value → List Char → Prop
  | null (depth : Nat) : Spells depth .null "null".toList
  | bool (depth : Nat) (b : Bool) : Spells depth (.bool b) (if b then "true" else "false").toList
  | int (depth : Nat) {i : Int} (short : Number.isTooLong i = false) :
    Spells depth (.int i) (toString i).toList
  | float (depth : Nat) (x : Float) : Spells depth (.float x) (Number.render layout x).toList
  | str (depth : Nat) (s : String) : Spells depth (.str s) (quote s).toList
  | list {depth : Nat} {g : Gaps} (blank : g.Blank) {parts : List (Value × List Char)}
      (each : ∀ part ∈ parts, Spells depth part.1 part.2) :
    Spells (depth + 1) (.list (parts.map (·.1))) (enclosed g '[' ']' (parts.map (·.2)))
  | fields {depth : Nat} {g : Gaps} (blank : g.Blank)
      {parts : List ((String × Value) × List Char)}
        (nodup : (Keyed.keys (parts.map (·.1))).Nodup)
      (each : ∀ part ∈ parts, Spells depth part.1.2 part.2) :
    Spells (depth + 1) (.ofFields (parts.map (·.1)))
      (enclosed g '\x7b' '\x7d' (parts.map fun part => entryChars g part.1.1 part.2))

/-! ### Writing -/

/-- The gaps of a level. -/
def gapsAt (indent : Option Int) (level : Nat) : Gaps :=
  let style := Style.indented indent
  { first := (style.newline (level + 1)).toList
    between := (if indent.isSome then [] else [' ']) ++ (style.newline (level + 1)).toList
    last := (style.newline level).toList
    colon := [' '] }

/-- Line breaks and indentations are blanks. -/
theorem blank_newline (indent : Option Int) (level : Nat) :
    Blank ((Style.indented indent).newline level).toList := by
  cases indent with
  | none => exact fun _ hc => nomatch hc
  | some width =>
    intro c hc
    have hline : ((Style.indented (some width)).newline level).toList =
        '\n' :: List.replicate (width.toNat * level) ' ' :=
      Number.toList_pushn "\n" ' ' _
    rw [hline] at hc
    rcases List.mem_cons.mp hc with rfl | hc
    · rfl
    · rw [List.eq_of_mem_replicate hc]
      rfl

/-- The gaps of a level are blanks. -/
theorem blank_gapsAt (indent : Option Int) (level : Nat) : (gapsAt indent level).Blank := by
  have hone : Blank [' '] := by
    intro c hc
    rw [List.mem_singleton.mp hc]
    rfl
  refine ⟨blank_newline _ _, List.forall_mem_append.mpr ⟨?_, blank_newline _ _⟩,
    blank_newline _ _, hone⟩
  split
  · exact fun _ hc => nomatch hc
  · exact hone

/-- Items with separators between them, before a closing bracket. -/
theorem intercalate_following (g : Gaps) (closing : Char) (part : List Char)
    (parts : List (List Char)) :
    (',' :: g.between).intercalate (part :: parts) ++ (g.last ++ [closing]) =
      part ++ following g closing parts := by
  induction parts generalizing part with
  | nil => simp [List.intercalate, following]
  | cons next rest ih =>
    rw [following, ← ih next]
    simp [List.intercalate]

/-- What is written between brackets. -/
theorem toList_enclose_indented (indent : Option Int) (level : Nat) {opening closing : String}
    {o c : Char} (hopening : opening.toList = [o]) (hclosing : closing.toList = [c])
    (items : List String) :
    ((Style.indented indent).enclose level opening closing items).toList =
      enclosed (gapsAt indent level) o c (items.map String.toList) := by
  rw [Style.enclose]
  cases items with
  | nil => simp [enclosed, hopening, hclosing]
  | cons item rest =>
    -- With nothing in between there are no gaps, and otherwise the separator is a comma with a gap.
    have hseparator : ((Style.indented indent).itemSeparator ++
        (Style.indented indent).newline (level + 1)).toList =
          ',' :: (gapsAt indent level).between := by
      cases indent with
      | none => simp [Style.indented, Style.newline, gapsAt]
      | some width => simp [Style.indented, gapsAt]
    have hfollowing := intercalate_following (gapsAt indent level) c item.toList
      (rest.map String.toList)
    rw [List.map_cons, enclosed, ← hfollowing]
    simp only [List.isEmpty_cons, Bool.false_eq_true, if_false, String.toList_append, hopening,
      hclosing, String.toList_intercalate, hseparator, List.map_cons]
    simp [gapsAt]

/-- Things that each belong to something are the first parts of pairs. -/
theorem exists_pairs {α β : Type} {R : α → β → Prop} {xs : List α}
    (h : ∀ x ∈ xs, ∃ y, R x y) :
    ∃ pairs : List (α × β), pairs.map (·.1) = xs ∧ ∀ pair ∈ pairs, R pair.1 pair.2 := by
  induction xs with
  | nil => exact ⟨[], rfl, fun _ hpair => nomatch hpair⟩
  | cons x rest ih =>
    obtain ⟨y, hy⟩ := h x List.mem_cons_self
    obtain ⟨pairs, hpairs, hall⟩ := ih fun z hz => h z (List.mem_cons_of_mem _ hz)
    refine ⟨(x, y) :: pairs, ?_, List.forall_mem_cons.mpr ⟨hy, hall⟩⟩
    rw [List.map_cons, hpairs]

/-- The keys of a mapping stay in their order. -/
theorem arrange_indented (indent : Option Int) (entries : List (Value × String)) :
    (Style.indented indent).arrange entries = .ok entries := by
  rw [Style.arrange, if_neg (by simp [Style.indented])]

/-- **Data that JSON has a form for is written** as one of its texts, whatever the indentation
    is. -/
theorem Shaped.spells {depth : Nat} {v : Value} (h : Shaped depth v) (indent : Option Int)
    (around : List Nat) (level : Nat) :
    ∃ text : String, writeWithin (.indented indent) around level v = .ok text ∧
      Spells depth v text.toList := by
  -- By induction on the shape.  The parts are written one level further in, and the entries of a
  -- mapping keep their order.
  induction h generalizing level with
  | null depth => exact ⟨_, rfl, .null depth⟩
  | bool depth b => exact ⟨_, rfl, .bool depth b⟩
  | @int depth i short =>
    refine ⟨_, ?_, .int depth short⟩
    rw [writeWithin.eq_5 _ _ _ (.int i) (by simp) (by simp) (by simp) (by simp), scalar, short,
      if_neg Bool.false_ne_true]
  | float depth x => exact ⟨_, rfl, .float depth x⟩
  | str depth s => exact ⟨_, rfl, .str depth s⟩
  | @list depth items _ ih =>
    obtain ⟨pairs, rfl, hpairs⟩ := exists_pairs fun v hv => ih v hv (level + 1)
    have hwritten : writeItems (.indented indent) around (level + 1) (pairs.map (·.1)) =
        .ok (pairs.map (·.2)) := by
      rw [writeItems_eq_ok, List.forall₂_map_left_iff, List.forall₂_map_right_iff,
        List.forall₂_same]
      exact fun pair hpair => (hpairs pair hpair).1
    refine ⟨(Style.indented indent).enclose level "[" "]" (pairs.map (·.2)), ?_, ?_⟩
    · rw [writeWithin, hwritten]
      rfl
    · rw [toList_enclose_indented indent level rfl rfl]
      have hparts : ∀ part ∈ pairs.map fun pair => (pair.1, pair.2.toList),
          Spells depth part.1 part.2 := by
        intro part hpart
        obtain ⟨pair, hpair, rfl⟩ := List.mem_map.mp hpart
        exact (hpairs pair hpair).2
      have hspells := Spells.list (blank_gapsAt indent level) hparts
      simp only [List.map_map, Function.comp_def] at hspells ⊢
      exact hspells
  | @fields depth fields nodup _ ih =>
    obtain ⟨pairs, rfl, hpairs⟩ := exists_pairs fun field hfield => ih field hfield (level + 1)
    have hwritten : writeEntries (.indented indent) around (level + 1)
        ((pairs.map (·.1)).map fun field => (Value.str field.1, field.2)) =
          .ok (pairs.map fun pair => (.str pair.1.1,
            quote pair.1.1 ++ (Style.indented indent).keySeparator ++ pair.2)) := by
      rw [writeEntries_eq_ok, List.map_map, List.forall₂_map_left_iff,
        List.forall₂_map_right_iff, List.forall₂_same]
      exact fun pair hpair => ⟨_, pair.2, rfl, (hpairs pair hpair).1, rfl⟩
    refine ⟨(Style.indented indent).enclose level "\x7b" "\x7d" (pairs.map fun pair =>
      quote pair.1.1 ++ (Style.indented indent).keySeparator ++ pair.2), ?_, ?_⟩
    · rw [Value.ofFields, writeWithin, hwritten]
      show ((Style.indented indent).arrange _).bind _ = _
      rw [arrange_indented]
      show Except.ok _ = _
      rw [List.map_map]
      rfl
    · rw [toList_enclose_indented indent level rfl rfl]
      have hparts : ∀ part ∈ pairs.map fun pair => (pair.1, pair.2.toList),
          Spells depth part.1.2 part.2 := by
        intro part hpart
        obtain ⟨pair, hpair, rfl⟩ := List.mem_map.mp hpart
        exact (hpairs pair hpair).2
      have hfields : (pairs.map fun pair => (pair.1, pair.2.toList)).map (·.1) =
          pairs.map (·.1) := by
        rw [List.map_map]
        rfl
      have hspells := Spells.fields (blank_gapsAt indent level) (hfields.symm ▸ nodup) hparts
      rw [hfields, List.map_map] at hspells
      have htexts : ((pairs.map fun pair => quote pair.1.1 ++
          (Style.indented indent).keySeparator ++ pair.2).map String.toList) =
            pairs.map fun pair => entryChars (gapsAt indent level) pair.1.1 pair.2.toList := by
        rw [List.map_map]
        refine List.map_congr_left fun pair _ => ?_
        simp [entryChars, gapsAt, Style.indented]
      rw [htexts]
      exact hspells

end PipelineCompiler.Json
