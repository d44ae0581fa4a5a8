import PipelineCompiler.Proofs.Json.Numbers
import PipelineCompiler.Proofs.Json.Spelled
import PipelineCompiler.Proofs.Keyed

namespace PipelineCompiler.Json

/-!
# Reading documents back

Data that JSON has a form for is read back from each of its texts, whatever follows them, and so
from the text that it is written as.

* `Spells.first` — how texts begin;
* `items_following`, `entries_following` — the parts of a list or mapping are read one by one;
* `Spells.value` — a text of data is read as the data;
* `Shaped.read_write` — what is written is read back.
-/

open Number

/-! ### How texts begin -/

/-- A character with which no gap and no closing bracket begins. -/
def IsFirst (c : Char) : Prop := isSpace c = false ∧ c ≠ ']' ∧ c ≠ '\x7d'

/-- A digit or a sign is such a character. -/
theorem isFirst_of_plain {c : Char} (h : isPlain c = true) : IsFirst c := by
  have hne : ∀ d, isPlain d = false → c ≠ d := by
    rintro d hd rfl
    rw [hd] at h
    cases h
  refine ⟨?_, hne ']' (by decide), hne '\x7d' (by decide)⟩
  simp [isSpace, hne ' ' (by decide), hne '\t' (by decide), hne '\n' (by decide),
    hne '\r' (by decide)]

/-- A text of plain characters begins with such a character. -/
theorem exists_first_of_plain {cs : List Char} (hne : cs ≠ []) (h : PlainText cs) :
    ∃ c more, cs = c :: more ∧ IsFirst c := by
  obtain ⟨c, more, rfl⟩ := List.exists_cons_of_ne_nil hne
  exact ⟨c, more, rfl, isFirst_of_plain (h c List.mem_cons_self)⟩

/-- Parts between brackets begin with a bracket. -/
theorem exists_enclosed (g : Gaps) (opening closing : Char) (parts : List (List Char)) :
    ∃ more, enclosed g opening closing parts = opening :: more := by
  cases parts with
  | nil => exact ⟨_, rfl⟩
  | cons part rest => exact ⟨_, rfl⟩

/-- **No text begins with a blank or a closing bracket.** -/
theorem Spells.first {depth : Nat} {v : Value} {cs : List Char} (h : Spells depth v cs) :
    ∃ c more, cs = c :: more ∧ IsFirst c := by
  -- Words, digits, signs, quotes and opening brackets: none of them is a blank.
  cases h with
  | null => exact ⟨_, _, rfl, by decide, by decide, by decide⟩
  | bool depth b =>
    cases b with
    | false => exact ⟨_, _, rfl, by decide, by decide, by decide⟩
    | true => exact ⟨_, _, rfl, by decide, by decide, by decide⟩
  | int => exact exists_first_of_plain (toString_ne_nil _) (toString_plain _)
  | float =>
    refine exists_first_of_plain (render_ne_nil ?_ ?_ ?_ _) (render_plain ?_ ?_ ?_ _)
    all_goals decide
  | str depth s =>
    rw [toList_quote]
    exact ⟨_, _, rfl, by decide, by decide, by decide⟩
  | list =>
    obtain ⟨more, hmore⟩ := exists_enclosed _ '[' ']' _
    exact ⟨_, more, hmore, by decide, by decide, by decide⟩
  | fields =>
    obtain ⟨more, hmore⟩ := exists_enclosed _ '\x7b' '\x7d' _
    exact ⟨_, more, hmore, by decide, by decide, by decide⟩

/-! ### Blanks -/

/-- Blanks are skipped. -/
theorem skip_blank {ws cs : List Char} (hws : Blank ws)
    (hcs : ∀ c ∈ cs.head?, isSpace c = false) :
    skip (ws ++ cs) = cs := by
  rw [skip, List.dropWhile_append_of_pos hws]
  cases cs with
  | nil => rfl
  | cons c more =>
    rw [List.dropWhile_cons_of_neg]
    rw [hcs c rfl]
    exact Bool.false_ne_true

/-- A blank may follow a number. -/
theorem ends_of_space {c : Char} (h : isSpace c = true) :
    c.isDigit = false ∧ c ≠ '.' ∧ c ≠ 'e' ∧ c ≠ 'E' := by
  simp only [isSpace, Bool.or_eq_true, beq_iff_eq] at h
  rcases h with ((rfl | rfl) | rfl) | rfl
  all_goals decide

/-- What follows a part may follow a number. -/
theorem ends_following {g : Gaps} (hg : g.Blank) {closing : Char} (hclosing : IsClosing closing)
    (parts : List (List Char)) (rest : List Char) : Ends (following g closing parts ++ rest) := by
  -- What follows is a comma, or the closing bracket, maybe with a line break before it.
  cases parts with
  | nil =>
    intro c hc
    rw [following] at hc
    cases hlast : g.last with
    | nil =>
      rw [hlast] at hc
      obtain rfl := Option.some.inj hc
      rcases hclosing with rfl | rfl
      · decide
      · decide
    | cons d more =>
      rw [hlast] at hc
      obtain rfl := Option.some.inj hc
      exact ends_of_space (hg.last d (hlast ▸ List.mem_cons_self))
  | cons part parts =>
    intro c hc
    obtain rfl := Option.some.inj hc
    decide

/-! ### Scalars -/

/-- Characters that begin neither a text nor a list nor a mapping begin a word or a number. -/
theorem value_leaf (depth fuel : Nat) {c : Char} (rest : List Char)
    (h : c ≠ '\x22' ∧ c ≠ '[' ∧ c ≠ '\x7b') :
    value depth (fuel + 1) (c :: rest) = leaf (c :: rest) := by
  simp [value, h.1, h.2.1, h.2.2]

/-- Digits are no word. -/
theorem leaf_digits {c : Char} (h : c.isDigit = true) (rest : List Char) :
    leaf (c :: rest) = number (c :: rest) := by
  have hne : ∀ d, d.isDigit = false → (d == c) = false := by
    intro d hd
    refine beq_eq_false_iff_ne.mpr ?_
    rintro rfl
    rw [hd] at h
    cases h
  have hfind : (words.find? fun word => word.1.isPrefixOf (c :: rest)) = none := by
    simp [words, List.find?, List.isPrefixOf, hne 'n' (by decide), hne 't' (by decide),
      hne 'f' (by decide), hne 'N' (by decide), hne 'I' (by decide), hne '-' (by decide)]
  rw [leaf, hfind]

/-- A sign before digits is no word. -/
theorem leaf_sign {c : Char} (h : c.isDigit = true) (rest : List Char) :
    leaf ('-' :: c :: rest) = number ('-' :: c :: rest) := by
  have hne : ('I' == c) = false := by
    refine beq_eq_false_iff_ne.mpr ?_
    rintro rfl
    cases h
  have hfind : (words.find? fun word => word.1.isPrefixOf ('-' :: c :: rest)) = none := by
    simp [words, List.find?, List.isPrefixOf, hne]
  rw [leaf, hfind]

/-- Digits with or without a sign are read as a number. -/
theorem value_digits (depth fuel : Nat) (negative : Bool) {ds : List Char} (h : AllDigits ds)
    (hne : ds ≠ []) (rest : List Char) :
    value depth (fuel + 1) (if negative then '-' :: (ds ++ rest) else ds ++ rest) =
      number (if negative then '-' :: (ds ++ rest) else ds ++ rest) := by
  -- The first character decides how the text is read: it is a digit or a sign.
  obtain ⟨c, more, rfl⟩ := List.exists_cons_of_ne_nil hne
  have hc := h c List.mem_cons_self
  cases negative with
  | true =>
    rw [if_pos rfl, value_leaf depth fuel _ (by decide)]
    exact leaf_sign hc _
  | false =>
    have hplain : c ≠ '\x22' ∧ c ≠ '[' ∧ c ≠ '\x7b' := by
      refine ⟨?_, ?_, ?_⟩
      all_goals
        rintro rfl
        cases hc
    rw [if_neg Bool.false_ne_true, List.cons_append, value_leaf depth fuel _ hplain]
    exact leaf_digits hc _

/-- A whole number is read. -/
theorem value_int (depth fuel : Nat) {i : Int} (hshort : isTooLong i = false) {rest : List Char}
    (hrest : Ends rest) :
    value depth (fuel + 1) ((toString i).toList ++ rest) = .ok (.int i, rest) := by
  obtain ⟨negative, -, htext⟩ := exists_sign i rest
  rw [← number_toString hshort hrest, htext]
  exact value_digits depth fuel negative (allDigits_toDigits _) Nat.toDigits_ne_nil rest

/-- A float is read, and so are the infinities and what is no number. -/
theorem value_float (depth fuel : Nat) (x : Float) {rest : List Char} (hrest : Ends rest) :
    value depth (fuel + 1) ((render layout x).toList ++ rest) = .ok (.float x, rest) := by
  -- What is no number and the infinities are words; all others are read as numbers.
  cases hnan : x.isNaN with
  | true =>
    obtain rfl := eq_nan hnan
    rw [render, hnan, if_pos rfl]
    rfl
  | false =>
    cases hinf : x.isInf with
    | true =>
      have hx := eq_infinity hinf
      rw [render, hnan, hinf, if_neg Bool.false_ne_true, if_pos rfl]
      split
      next hnegative =>
        rw [if_pos hnegative] at hx
        rw [hx]
        rfl
      next hpositive =>
        rw [if_neg hpositive] at hx
        rw [hx]
        rfl
    | false =>
      obtain ⟨p, hproper, -, hchars, -⟩ := exists_pieces layout hnan hinf
      have hread := number_render hnan hinf hrest
      rw [hchars, signed_append] at hread ⊢
      rw [value_digits depth fuel _ hproper.whole hproper.whole_ne_nil, hread]

/-! ### Lists and mappings -/

/-- A text is read as a value inside so many others, whatever follows it. -/
def Reads (depth : Nat) (v : Value) (cs : List Char) : Prop :=
  ∀ fuel rest, cs.length ≤ fuel → Ends rest → value depth fuel (cs ++ rest) = .ok (v, rest)

/-- A text that is read, and how it begins. -/
structure IsText (depth : Nat) (v : Value) (cs : List Char) : Prop where
  reads : Reads depth v cs
  first : ∃ c more, cs = c :: more ∧ IsFirst c

/-- What a text begins with is no blank. -/
theorem IsText.head {depth : Nat} {v : Value} {cs : List Char} (h : IsText depth v cs)
    (rest : List Char) : ∀ c ∈ (cs ++ rest).head?, isSpace c = false := by
  obtain ⟨c, more, rfl, hfirst⟩ := h.first
  intro d hd
  obtain rfl := Option.some.inj hd
  exact hfirst.1

/-- A closing bracket behind a gap is found. -/
theorem skip_last {g : Gaps} (hg : g.Blank) {closing : Char} (hclosing : IsClosing closing)
    (rest : List Char) : skip (following g closing [] ++ rest) = closing :: rest := by
  rw [following, List.append_assoc]
  refine skip_blank hg.last ?_
  intro c hc
  obtain rfl := Option.some.inj hc
  rcases hclosing with rfl | rfl
  · rfl
  · rfl

variable {depth : Nat} {g : Gaps}

/-- The next part behind a separator is found. -/
theorem skip_between (hg : g.Blank) {v : Value} {cs : List Char} (h : IsText depth v cs)
    (rest : List Char) : skip (g.between ++ (cs ++ rest)) = cs ++ rest :=
  skip_blank hg.between (h.head rest)

/-- An item is read, and then the others or the end of the list. -/
theorem items_succ (done : List Value) {fuel : Nat} {v : Value} {cs rest : List Char}
    (h : Reads depth v cs) (hfuel : cs.length ≤ fuel) (hrest : Ends rest) :
    items depth done (fuel + 1) (cs ++ rest) =
      match skip rest with
      | ',' :: after => items depth (v :: done) fuel (skip after)
      | ']' :: after => .ok (.list (v :: done).reverse, after)
      | _ => .error .malformed := by
  rw [items, h fuel rest hfuel hrest]
  rfl

/-- **The items of a list are read one by one.** -/
theorem items_following (hg : g.Blank) {parts : List (Value × List Char)}
    {part : Value × List Char}
    (hpart : IsText depth part.1 part.2) (hparts : ∀ next ∈ parts, IsText depth next.1 next.2)
    (done : List Value) {fuel : Nat} (rest : List Char)
    (hfuel : (part.2 ++ following g ']' (parts.map (·.2))).length ≤ fuel) :
    items depth done fuel (part.2 ++ (following g ']' (parts.map (·.2)) ++ rest)) =
      .ok (.list (done.reverse ++ part.1 :: parts.map (·.1)), rest) := by
  -- By induction on the items that are left, with the ones that have been read turned around.
  induction parts generalizing part done fuel with
  | nil =>
    rw [List.map_nil, following, List.length_append, List.length_append,
      List.length_singleton] at hfuel
    obtain ⟨fuel, rfl⟩ : ∃ n, fuel = n + 1 := ⟨fuel - 1, by omega⟩
    rw [List.map_nil, items_succ done hpart.reads (by omega) (ends_following hg (.inl rfl) _ _),
      skip_last hg (.inl rfl)]
    simp
  | cons next parts ih =>
    obtain ⟨hnext, hparts⟩ := List.forall_mem_cons.mp hparts
    rw [List.map_cons, following, List.length_append, List.length_cons,
      List.length_append] at hfuel
    obtain ⟨fuel, rfl⟩ : ∃ n, fuel = n + 1 := ⟨fuel - 1, by omega⟩
    have hcomma : skip (following g ']' ((next :: parts).map (·.2)) ++ rest) =
        ',' :: (g.between ++ (next.2 ++ (following g ']' (parts.map (·.2)) ++ rest))) := by
      simp [following, skip, isSpace]
    rw [items_succ done hpart.reads (by omega) (ends_following hg (.inl rfl) _ _), hcomma]
    show items depth (part.1 :: done) fuel (skip _) = _
    rw [skip_between hg hnext, ih hnext hparts (part.1 :: done) (by omega)]
    simp

/-! ### Mappings -/

/-- The entries of a mapping as they are collected. -/
def collected (fields : List (String × Value)) : Value.Entries :=
  fields.map fun field => (.str field.1, field.2)

/-- An entry with a new key goes to the end. -/
theorem put_collected {done : List (String × Value)} {field : String × Value}
    {more : List (String × Value)} (h : (Keyed.keys (done ++ field :: more)).Nodup) :
    Value.put (collected done) (.str field.1) field.2 = collected (done ++ [field]) := by
  have hnew : field.1 ∉ Keyed.keys done := by
    rw [Keyed.keys_append, List.nodup_append] at h
    exact fun hmem => h.2.2 _ hmem _ List.mem_cons_self rfl
  clear h
  induction done with
  -- By induction on the entries, none of which has the key.
  | nil => rfl
  | cons first rest ih =>
    rw [Keyed.keys, List.map_cons, List.mem_cons, not_or] at hnew
    have hne : (Value.str first.1).sameKey (.str field.1) = false := by
      show (first.1 == field.1) = false
      exact beq_eq_false_iff_ne.mpr fun heq => hnew.1 heq.symm
    have hput := ih hnew.2
    rw [collected, collected] at hput
    rw [collected, List.map_cons, Value.put, hne, if_neg Bool.false_ne_true, hput]
    rfl

/-- An entry is read, and then the others or the end of the mapping. -/
theorem entries_succ (hg : g.Blank) (done : Value.Entries) {fuel : Nat} (name : String) {v : Value}
    {cs rest : List Char} (h : IsText depth v cs) (hfuel : cs.length ≤ fuel) (hrest : Ends rest) :
    entries depth done (fuel + 1) (entryChars g name cs ++ rest) =
      match skip rest with
      | ',' :: after => entries depth (Value.put done (.str name) v) fuel (skip after)
      | '\x7d' :: after => .ok (.map (Value.put done (.str name) v), after)
      | _ => .error .malformed := by
  -- An entry is a quoted key, a colon and a value, with gaps around the colon.
  have hquoted : entryChars g name cs ++ rest =
      '\x22' :: (quotedChars name.toList ++ '\x22' :: ':' :: (g.colon ++ (cs ++ rest))) := by
    simp [entryChars, toList_quote]
  have hcolon : skip (':' :: (g.colon ++ (cs ++ rest))) = ':' :: (g.colon ++ (cs ++ rest)) := by
    simp [skip, isSpace]
  rw [hquoted, entries, string_quote]
  simp only [bind, Except.bind, hcolon]
  rw [skip_blank hg.colon (h.head rest)]
  generalize hfound : value depth fuel (cs ++ rest) = found
  obtain rfl := hfound.symm.trans (h.reads fuel rest hfuel hrest)
  rfl

/-- An entry is longer than its value. -/
theorem length_lt_entry (g : Gaps) (name : String) (cs : List Char) :
    cs.length < (entryChars g name cs).length := by
  rw [entryChars, List.length_append, List.length_cons, List.length_append]
  omega

/-- The texts of entries. -/
def entryTexts (g : Gaps) (parts : List ((String × Value) × List Char)) : List (List Char) :=
  parts.map fun part => entryChars g part.1.1 part.2

/-- **The entries of a mapping are read one by one.** -/
theorem entries_following (hg : g.Blank) {parts : List ((String × Value) × List Char)}
    {part : (String × Value) × List Char} (hpart : IsText depth part.1.2 part.2)
    (hparts : ∀ next ∈ parts, IsText depth next.1.2 next.2) (done : List (String × Value))
    (hnodup : (Keyed.keys (done ++ part.1 :: parts.map (·.1))).Nodup) {fuel : Nat}
    (rest : List Char)
    (hfuel : (entryChars g part.1.1 part.2 ++ following g '\x7d' (entryTexts g parts)).length ≤
      fuel) :
    entries depth (collected done) fuel
        (entryChars g part.1.1 part.2 ++ (following g '\x7d' (entryTexts g parts) ++ rest)) =
      .ok (.ofFields (done ++ part.1 :: parts.map (·.1)), rest) := by
  -- By induction on the entries that are left.  Their keys are new each time, so that no entry
  -- replaces another.
  induction parts generalizing part done fuel with
  | nil =>
    have hlength := length_lt_entry g part.1.1 part.2
    rw [entryTexts, List.map_nil, following, List.length_append, List.length_append,
      List.length_singleton] at hfuel
    obtain ⟨fuel, rfl⟩ : ∃ n, fuel = n + 1 := ⟨fuel - 1, by omega⟩
    rw [entryTexts, List.map_nil, entries_succ hg _ _ hpart (by omega)
      (ends_following hg (.inr rfl) _ _), skip_last hg (.inr rfl), put_collected hnodup]
    rfl
  | cons next parts ih =>
    obtain ⟨hnext, hparts⟩ := List.forall_mem_cons.mp hparts
    have hlength := length_lt_entry g part.1.1 part.2
    have htexts : entryTexts g (next :: parts) =
        entryChars g next.1.1 next.2 :: entryTexts g parts := rfl
    rw [htexts, following, List.length_append, List.length_cons, List.length_append] at hfuel
    obtain ⟨fuel, rfl⟩ : ∃ n, fuel = n + 1 := ⟨fuel - 1, by omega⟩
    have hcomma : skip (following g '\x7d' (entryTexts g (next :: parts)) ++ rest) =
        ',' :: (g.between ++ (entryChars g next.1.1 next.2 ++
          (following g '\x7d' (entryTexts g parts) ++ rest))) := by
      simp [htexts, following, skip, isSpace]
    have hkey : ∀ c ∈ (entryChars g next.1.1 next.2 ++
        (following g '\x7d' (entryTexts g parts) ++ rest)).head?, isSpace c = false := by
      intro c hc
      rw [entryChars, toList_quote] at hc
      obtain rfl := Option.some.inj hc
      rfl
    rw [entries_succ hg _ _ hpart (by omega) (ends_following hg (.inr rfl) _ _), hcomma,
      put_collected hnodup]
    have hsplit : done ++ part.1 :: (next :: parts).map (·.1) =
        (done ++ [part.1]) ++ next.1 :: parts.map (·.1) := by
      simp
    rw [hsplit] at hnodup ⊢
    show entries depth (collected (done ++ [part.1])) fuel (skip _) = _
    rw [skip_blank hg.between hkey]
    exact ih hnext hparts (done ++ [part.1]) hnodup (by omega)

/-! ### Values -/

/-- A list that is not too deep is read when its items are. -/
theorem reads_list (hg : g.Blank) {parts : List (Value × List Char)} (hdepth : depth < depthLimit)
    (hparts : ∀ part ∈ parts, IsText (depth + 1) part.1 part.2) :
    Reads depth (.list (parts.map (·.1))) (enclosed g '[' ']' (parts.map (·.2))) := by
  intro fuel rest hfuel hrest
  have hdeep : ¬ depthLimit ≤ depth := not_le.mpr hdepth
  -- An empty list has nothing but its brackets.
  cases parts with
  | nil =>
    obtain ⟨fuel, rfl⟩ : ∃ n, fuel = n + 1 :=
      ⟨fuel - 1, by simp [enclosed] at hfuel; omega⟩
    simp [enclosed, value, hdeep, skip, isSpace]
  | cons part parts =>
    obtain ⟨hpart, hparts⟩ := List.forall_mem_cons.mp hparts
    rw [List.map_cons, enclosed, List.length_cons, List.length_append] at hfuel
    obtain ⟨fuel, rfl⟩ : ∃ n, fuel = n + 1 := ⟨fuel - 1, by omega⟩
    have hskip : skip (g.first ++ (part.2 ++ (following g ']' (parts.map (·.2)) ++ rest))) =
        part.2 ++ (following g ']' (parts.map (·.2)) ++ rest) :=
      skip_blank hg.first (hpart.head _)
    have hitems := items_following hg hpart hparts [] rest (by omega : _ ≤ fuel)
    obtain ⟨c, more, hc, -, hne, -⟩ := hpart.first
    have hbrackets : enclosed g '[' ']' ((part :: parts).map (·.2)) ++ rest =
        '[' :: (g.first ++ (part.2 ++ (following g ']' (parts.map (·.2)) ++ rest))) := by
      simp [enclosed]
    rw [hbrackets, value, if_neg (by decide), if_pos (by decide), if_neg hdeep, hskip]
    split
    next heq =>
      rw [hc] at heq
      exact absurd (List.cons.inj heq).1 hne
    next => exact hitems

/-- A mapping that is not too deep is read when its values are. -/
theorem reads_fields (hg : g.Blank) {parts : List ((String × Value) × List Char)}
    (hdepth : depth < depthLimit) (hnodup : (Keyed.keys (parts.map (·.1))).Nodup)
    (hparts : ∀ part ∈ parts, IsText (depth + 1) part.1.2 part.2) :
    Reads depth (.ofFields (parts.map (·.1))) (enclosed g '\x7b' '\x7d' (entryTexts g parts)) := by
  intro fuel rest hfuel hrest
  have hdeep : ¬ depthLimit ≤ depth := not_le.mpr hdepth
  -- An empty mapping has nothing but its braces.
  cases parts with
  | nil =>
    obtain ⟨fuel, rfl⟩ : ∃ n, fuel = n + 1 :=
      ⟨fuel - 1, by simp [entryTexts, enclosed] at hfuel; omega⟩
    simp [entryTexts, enclosed, value, hdeep, skip, isSpace, Value.ofFields]
  | cons part parts =>
    obtain ⟨hpart, hparts⟩ := List.forall_mem_cons.mp hparts
    have htexts : entryTexts g (part :: parts) =
        entryChars g part.1.1 part.2 :: entryTexts g parts := rfl
    rw [htexts, enclosed, List.length_cons, List.length_append] at hfuel
    obtain ⟨fuel, rfl⟩ : ∃ n, fuel = n + 1 := ⟨fuel - 1, by omega⟩
    obtain ⟨more, hc⟩ : ∃ more, entryChars g part.1.1 part.2 ++
        (following g '\x7d' (entryTexts g parts) ++ rest) = '\x22' :: more := by
      rw [entryChars, toList_quote]
      exact ⟨_, rfl⟩
    have hskip : skip (g.first ++ (entryChars g part.1.1 part.2 ++
        (following g '\x7d' (entryTexts g parts) ++ rest))) =
          entryChars g part.1.1 part.2 ++ (following g '\x7d' (entryTexts g parts) ++ rest) := by
      refine skip_blank hg.first fun c hhead => ?_
      rw [hc] at hhead
      obtain rfl := Option.some.inj hhead
      rfl
    have hentries := entries_following hg hpart hparts [] hnodup rest
      (by omega : _ ≤ fuel)
    have hbraces : enclosed g '\x7b' '\x7d' (entryTexts g (part :: parts)) ++ rest =
        '\x7b' :: (g.first ++ (entryChars g part.1.1 part.2 ++
          (following g '\x7d' (entryTexts g parts) ++ rest))) := by
      simp [htexts, enclosed]
    rw [hbraces, value, if_neg (by decide), if_neg (by decide), if_pos (by decide), if_neg hdeep,
      hskip]
    split
    next heq =>
      rw [hc] at heq
      exact absurd (List.cons.inj heq).1 (by decide)
    next => exact hentries

/-- **A text of data is read as the data**, whatever follows it. -/
theorem Spells.isText {height : Nat} {v : Value} {cs : List Char} (h : Spells height v cs)
    (depth : Nat) (hdepth : depth + height ≤ depthLimit) : IsText depth v cs := by
  refine ⟨?_, h.first⟩
  -- By induction on how the text spells the data.  Each level takes one of the depth that is left.
  induction h generalizing depth with
  | null =>
    intro fuel rest hfuel hrest
    obtain ⟨fuel, rfl⟩ : ∃ n, fuel = n + 1 := ⟨fuel - 1, by simp at hfuel; omega⟩
    rfl
  | bool height b =>
    intro fuel rest hfuel hrest
    cases b with
    | false =>
      obtain ⟨fuel, rfl⟩ : ∃ n, fuel = n + 1 := ⟨fuel - 1, by simp at hfuel; omega⟩
      rfl
    | true =>
      obtain ⟨fuel, rfl⟩ : ∃ n, fuel = n + 1 := ⟨fuel - 1, by simp at hfuel; omega⟩
      rfl
  | @int height i short =>
    intro fuel rest hfuel hrest
    have hpos := List.length_pos_of_ne_nil (toString_ne_nil i)
    obtain ⟨fuel, rfl⟩ : ∃ n, fuel = n + 1 := ⟨fuel - 1, by omega⟩
    exact value_int depth fuel short hrest
  | float height x =>
    intro fuel rest hfuel hrest
    have hpos := List.length_pos_of_ne_nil
      (@render_ne_nil layout (by decide) (by decide) (by decide) x)
    obtain ⟨fuel, rfl⟩ : ∃ n, fuel = n + 1 := ⟨fuel - 1, by omega⟩
    exact value_float depth fuel x hrest
  | str height s =>
    intro fuel rest hfuel hrest
    rw [toList_quote] at hfuel ⊢
    obtain ⟨fuel, rfl⟩ : ∃ n, fuel = n + 1 := ⟨fuel - 1, by simp at hfuel; omega⟩
    have hquoted : '\x22' :: (quotedChars s.toList ++ ['\x22']) ++ rest =
        '\x22' :: (quotedChars s.toList ++ '\x22' :: rest) := by
      simp
    rw [hquoted, value, if_pos (by decide), string_quote]
    rfl
  | @list height g hg parts each ih =>
    refine reads_list hg (by omega) fun part hpart => ⟨ih part hpart (depth + 1) (by omega), ?_⟩
    exact (each part hpart).first
  | @fields height g hg parts nodup each ih =>
    refine reads_fields hg (by omega) nodup fun part hpart =>
      ⟨ih part hpart (depth + 1) (by omega), ?_⟩
    exact (each part hpart).first

/-- **What is written is read back**: data that JSON has a form for, with any indentation. -/
theorem Shaped.read_write {height : Nat} {v : Value} (h : Shaped height v)
    (hheight : height ≤ depthLimit) (indent : Option Int) :
    ∃ text, write (.indented indent) v = .ok text ∧ Spells height v text.toList ∧
      read text = .ok v := by
  obtain ⟨text, htext, hspells⟩ := h.spells indent [] 0
  refine ⟨text, htext, hspells, ?_⟩
  have hrest : Ends [] := fun c hc => nomatch hc
  have hread := (hspells.isText 0 (by omega)).reads (text.toList.length + 1) []
    (Nat.le_succ _) hrest
  -- A text begins with no blank, so nothing is skipped before it.
  have hskip : skip text.toList = text.toList := by
    have hhead := (hspells.isText 0 (by omega)).head []
    rw [List.append_nil] at hhead
    exact @skip_blank [] _ (fun _ hc => nomatch hc) hhead
  rw [List.append_nil] at hread
  rw [read]
  dsimp only
  rw [hskip, hread]
  rfl

end PipelineCompiler.Json
