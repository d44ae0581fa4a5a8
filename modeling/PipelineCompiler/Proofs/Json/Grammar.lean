import PipelineCompiler.Proofs.Json.Numbers
import PipelineCompiler.Proofs.Json.Spelled

namespace PipelineCompiler.Json

/-!
# JSON in the strict sense

The grammar of JSON knows numbers, and no words for infinities and for what is no number.

* `IsQuoted`, `IsNumber`, `IsValue`, `IsStrict` — the grammar;
* `IsFinite`, `floats` — the floats in data, and which of them are numbers;
* `isNumber_toString`, `isNumber_render`, `isQuoted_quote` — what scalars are written as follows
  the grammar;
* `Spells.isValue` — so do the texts of data whose floats are finite.
-/

open Number

/-! ### The grammar -/

/-- A hexadecimal digit. -/
def IsHexDigit (c : Char) : Prop :=
  c.isDigit = true ∨ ('a' ≤ c ∧ c ≤ 'f') ∨ ('A' ≤ c ∧ c ≤ 'F')

/-- A character of a quoted text: itself, or an escape. -/
inductive IsCharacter : List Char → Prop
  | plain {c : Char} (printable : 0x20 ≤ c.toNat) (quote : c ≠ '\x22')
      (backslash : c ≠ '\\') :
    IsCharacter [c]
  | letter {c : Char} (letter : c ∈ ['\x22', '\\', '/', 'b', 'f', 'n', 'r', 't']) :
    IsCharacter ['\\', c]
  | code {a b c d : Char} (digits : ∀ x ∈ [a, b, c, d], IsHexDigit x) :
    IsCharacter ['\\', 'u', a, b, c, d]

/-- Characters between quotes. -/
inductive IsQuoted : List Char → Prop
  | intro {parts : List (List Char)} (each : ∀ part ∈ parts, IsCharacter part) :
    IsQuoted ('\x22' :: (parts.flatten ++ ['\x22']))

/-- At least one digit. -/
def AreDigits (cs : List Char) : Prop := cs ≠ [] ∧ AllDigits cs

/-- Digits that start with a zero only if that is all. -/
def IsWhole (cs : List Char) : Prop := AreDigits cs ∧ (cs = ['0'] ∨ cs.head? ≠ some '0')

/-- Nothing, or a point and digits. -/
def IsFraction (cs : List Char) : Prop := cs = [] ∨ ∃ ds, AreDigits ds ∧ cs = '.' :: ds

/-- Nothing, or a mark, perhaps a sign, and digits. -/
def IsExponent (cs : List Char) : Prop :=
  cs = [] ∨ ∃ mark sign ds, (mark = 'e' ∨ mark = 'E') ∧
    (sign = [] ∨ sign = ['+'] ∨ sign = ['-']) ∧
    AreDigits ds ∧ cs = mark :: (sign ++ ds)

/-- A number. -/
inductive IsNumber : List Char → Prop
  | intro {sign ds point exponent : List Char} (signed : sign = [] ∨ sign = ['-'])
      (whole : IsWhole ds) (pointed : IsFraction point) (marked : IsExponent exponent) :
    IsNumber (sign ++ (ds ++ (point ++ exponent)))

mutual

/-- A value. -/
inductive IsValue : List Char → Prop
  | null : IsValue "null".toList
  | bool (b : Bool) : IsValue (if b then "true" else "false").toList
  | number {cs : List Char} (number : IsNumber cs) : IsValue cs
  | quoted {cs : List Char} (quoted : IsQuoted cs) : IsValue cs
  | noItems {gap : List Char} (blank : Blank gap) : IsValue ('[' :: (gap ++ [']']))
  | items {cs : List Char} (members : AreMembers false cs) : IsValue ('[' :: (cs ++ [']']))
  | noEntries {gap : List Char} (blank : Blank gap) : IsValue ('\x7b' :: (gap ++ ['\x7d']))
  | entries {cs : List Char} (members : AreMembers true cs) :
    IsValue ('\x7b' :: (cs ++ ['\x7d']))

/-- A value with blanks around it, behind a quoted name and a colon if it is an entry. -/
inductive IsMember : Bool → List Char → Prop
  | item {before cs after : List Char} (lead : Blank before) (value : IsValue cs)
      (trail : Blank after) : IsMember false (before ++ (cs ++ after))
  | entry {before name behind gap cs after : List Char} (lead : Blank before)
      (quoted : IsQuoted name) (past : Blank behind) (space : Blank gap) (value : IsValue cs)
      (trail : Blank after) :
    IsMember true (before ++ (name ++ (behind ++ ':' :: (gap ++ (cs ++ after)))))

/-- Members with separators between them. -/
inductive AreMembers : Bool → List Char → Prop
  | last {keyed : Bool} {cs : List Char} (member : IsMember keyed cs) : AreMembers keyed cs
  | more {keyed : Bool} {cs others : List Char} (member : IsMember keyed cs)
      (members : AreMembers keyed others) : AreMembers keyed (cs ++ ',' :: others)

end

/-- A text that holds one value and blanks around it. -/
def IsStrict (text : String) : Prop :=
  ∃ before cs after, Blank before ∧ IsValue cs ∧ Blank after ∧
    text.toList = before ++ (cs ++ after)

/-! ### Finite data -/

/-- A float that is a number, and no infinity. -/
def IsFinite (x : Float) : Prop := x.isNaN = false ∧ x.isInf = false

mutual

/-- The floats in a value. -/
def floats : Value → List Float
  | .float x => [x]
  | .list items | .tuple items | .set items => floatsOf items
  | .map entries => floatsIn entries
  | .placed _ v => floats v
  | _ => []

/-- The floats in the items of a list. -/
def floatsOf : List Value → List Float
  | [] => []
  | item :: rest => floats item ++ floatsOf rest

/-- The floats in the entries of a mapping. -/
def floatsIn : List (Value × Value) → List Float
  | [] => []
  | (key, value) :: rest => floats key ++ (floats value ++ floatsIn rest)

end

/-- The floats in a list. -/
theorem floats_list (items : List Value) : floats (.list items) = items.flatMap floats := by
  rw [floats]
  induction items with
  | nil => rfl
  | cons item rest ih => rw [floatsOf, ih, List.flatMap_cons]

/-- The floats in a mapping with text keys. -/
theorem floats_ofFields (fields : List (String × Value)) :
    floats (.ofFields fields) = fields.flatMap fun field => floats field.2 := by
  rw [Value.ofFields, floats]
  induction fields with
  | nil => rfl
  | cons field rest ih =>
    rw [List.map_cons, floatsIn, ih, List.flatMap_cons]
    rfl

/-! ### The texts of finite data -/

/-- Digits as numbers have them. -/
theorem isWhole_of_first {cs : List Char} (h : AllDigits cs)
    (hfirst : cs = ['0'] ∨ ∃ c rest, cs = c :: rest ∧ c ≠ '0') : IsWhole cs := by
  rcases hfirst with rfl | ⟨c, rest, rfl, hne⟩
  · exact ⟨⟨List.cons_ne_nil _ _, h⟩, .inl rfl⟩
  · exact ⟨⟨List.cons_ne_nil _ _, h⟩, .inr fun heq => hne (Option.some.inj heq)⟩

/-- A sign or none. -/
theorem isNumber_signed (negative : Bool) {ds point exponent : List Char} (whole : IsWhole ds)
    (pointed : IsFraction point) (marked : IsExponent exponent) :
    IsNumber (if negative then '-' :: (ds ++ (point ++ exponent)) else ds ++
      (point ++ exponent)) := by
  cases negative with
  | true => exact .intro (.inr rfl) whole pointed marked
  | false => exact .intro (.inl rfl) whole pointed marked

/-- Whole numbers follow the grammar. -/
theorem isNumber_toString (i : ℤ) : IsNumber (toString i).toList := by
  obtain ⟨negative, -, htext⟩ := exists_sign i []
  have hnumber := isNumber_signed negative
    (isWhole_of_first (allDigits_toDigits i.natAbs) (toDigits_first i.natAbs)) (.inl rfl) (.inl rfl)
  rw [List.append_nil] at htext
  rw [htext]
  exact hnumber

/-- Decimals in pieces follow the grammar. -/
theorem isNumber_pieces {p : Pieces} (h : p.Proper) (negative : Bool) :
    IsNumber (if negative then '-' :: p.chars else p.chars) := by
  -- The grammar has three parts, and the pieces are these: digits, a fraction that may be missing,
  -- and an exponent that may be.
  have hpointed : IsFraction p.pointed := by
    rw [Pieces.pointed]
    split
    next => exact .inl rfl
    next hne => exact .inr ⟨p.fraction, ⟨hne, h.fraction⟩, rfl⟩
  have hmarked : IsExponent p.marked := by
    rw [Pieces.marked]
    cases p.exponent with
    | none => exact .inl rfl
    | some e =>
      obtain ⟨ds, hdigits, hne, -, htext⟩ := exists_exponentDigits e
      refine .inr ⟨'e', [if e < 0 then '-' else '+'], ds, .inl rfl, ?_,
        ⟨hne, hdigits⟩, htext⟩
      split
      · exact .inr (.inr rfl)
      · exact .inr (.inl rfl)
  exact isNumber_signed negative (isWhole_of_first h.whole h.first) hpointed hmarked

/-- Finite floats follow the grammar. -/
theorem isNumber_render {x : Float} (h : IsFinite x) : IsNumber (render layout x).toList := by
  obtain ⟨p, hproper, -, hchars, -⟩ := exists_pieces layout h.1 h.2
  rw [hchars]
  exact isNumber_pieces hproper _

/-- A character is written as itself or as an escape. -/
theorem isCharacter_quoteChar (c : Char) : IsCharacter (quoteChar c).toList := by
  -- One line of the escape table after the other; what is left is a control character or stands for
  -- itself.
  unfold quoteChar
  split
  next => exact .letter (by decide)
  next hquote =>
  split
  next => exact .letter (by decide)
  next hbackslash =>
  split
  next => exact .letter (by decide)
  next =>
  split
  next => exact .letter (by decide)
  next =>
  split
  next => exact .letter (by decide)
  next =>
  split
  next => exact .letter (by decide)
  next =>
  split
  next => exact .letter (by decide)
  next =>
  split
  next hcontrol =>
    rw [toList_controlEscape c.toNat hcontrol]
    have hdigit : ∀ n < 16, (Nat.digitChar n).isDigit = true ∨
        ('a' ≤ Nat.digitChar n ∧ Nat.digitChar n ≤ 'f') ∨
        ('A' ≤ Nat.digitChar n ∧ Nat.digitChar n ≤ 'F') := by
      decide
    refine .code fun x hx => ?_
    simp only [List.mem_cons, List.not_mem_nil, or_false] at hx
    rcases hx with rfl | rfl | rfl | rfl
    · exact .inl rfl
    · exact .inl rfl
    · exact hdigit _ (by omega)
    · exact hdigit _ (by omega)
  next hprint =>
    have htext : c.toString.toList = [c] := String.toList_singleton c
    rw [htext]
    exact .plain (not_lt.mp hprint) (fun he => hquote (by simp [he]))
      fun he => hbackslash (by simp [he])

/-- Quoted texts follow the grammar. -/
theorem isQuoted_quote (s : String) : IsQuoted (quote s).toList := by
  have hparts : ∀ part ∈ s.toList.map fun c => (quoteChar c).toList, IsCharacter part := by
    intro part hpart
    obtain ⟨c, -, rfl⟩ := List.mem_map.mp hpart
    exact isCharacter_quoteChar c
  rw [toList_quote, quotedChars, List.flatMap_def]
  exact .intro hparts

/-- Members with separators between them, before a closing bracket. -/
theorem exists_members {keyed : Bool} {g : Gaps} (hg : g.Blank) (closing : Char)
    {parts : List (List Char)}
    (hparts : ∀ part ∈ parts, ∀ before after, Blank before → Blank after →
      IsMember keyed (before ++ (part ++ after)))
    {part : List Char}
    (hpart : ∀ before after, Blank before → Blank after →
      IsMember keyed (before ++ (part ++ after)))
    {before : List Char} (hbefore : Blank before) :
    ∃ cs, AreMembers keyed cs ∧ before ++ (part ++ following g closing parts) =
      cs ++ [closing] := by
  have hnone : Blank [] := fun _ hc => nomatch hc
  -- By induction on the members that are left.
  induction parts generalizing part before with
  | nil =>
    refine ⟨before ++ (part ++ g.last), .last (hpart before g.last hbefore hg.last), ?_⟩
    simp [following]
  | cons next rest ih =>
    obtain ⟨hnext, hrest⟩ := List.forall_mem_cons.mp hparts
    obtain ⟨cs, hcs, htext⟩ := ih hrest hnext hg.between
    refine ⟨before ++ (part ++ []) ++ ',' :: cs, .more (hpart before [] hbefore hnone) hcs, ?_⟩
    rw [following, htext]
    simp

/-- **The text of finite data follows the grammar.** -/
theorem Spells.isValue {depth : Nat} {v : Value} {cs : List Char} (h : Spells depth v cs)
    (hfinite : ∀ x ∈ floats v, IsFinite x) : IsValue cs := by
  have hnone : Blank [] := fun _ hc => nomatch hc
  -- By induction on how the text spells the data: each constructor is a rule of the grammar.
  induction h with
  | null => exact .null
  | bool depth b => exact .bool b
  | int => exact .number (isNumber_toString _)
  | float depth x => exact .number (isNumber_render (hfinite x List.mem_cons_self))
  | str depth s => exact .quoted (isQuoted_quote s)
  | @list depth g hg parts each ih =>
    rw [floats_list] at hfinite
    have hmembers : ∀ part ∈ parts.map (·.2), ∀ before after,
      Blank before → Blank after →
        IsMember false (before ++ (part ++ after)) := by
      intro text htext before after hbefore hafter
      obtain ⟨part, hpart, rfl⟩ := List.mem_map.mp htext
      refine .item hbefore (ih part hpart fun x hx => ?_) hafter
      exact hfinite x (List.mem_flatMap.mpr ⟨part.1, List.mem_map_of_mem hpart, hx⟩)
    cases parts with
    | nil => exact .noItems hnone
    | cons part rest =>
      obtain ⟨hpart, hrest⟩ := List.forall_mem_cons.mp hmembers
      obtain ⟨cs, hcs, htext⟩ := exists_members hg ']' hrest hpart hg.first
      rw [List.map_cons, enclosed, htext]
      exact .items hcs
  | @fields depth g hg parts nodup each ih =>
    rw [floats_ofFields] at hfinite
    have hmembers : ∀ part ∈ parts.map fun part => entryChars g part.1.1 part.2,
        ∀ before after, Blank before → Blank after →
          IsMember true (before ++ (part ++ after)) := by
      intro text htext before after hbefore hafter
      obtain ⟨part, hpart, rfl⟩ := List.mem_map.mp htext
      have hvalue := ih part hpart fun x hx =>
        hfinite x (List.mem_flatMap.mpr ⟨part.1, List.mem_map_of_mem hpart, hx⟩)
      have hentry := IsMember.entry hbefore (isQuoted_quote part.1.1) hnone hg.colon hvalue hafter
      simpa [entryChars] using hentry
    cases parts with
    | nil => exact .noEntries hnone
    | cons part rest =>
      obtain ⟨hpart, hrest⟩ := List.forall_mem_cons.mp hmembers
      obtain ⟨cs, hcs, htext⟩ := exists_members hg '\x7d' hrest hpart hg.first
      rw [List.map_cons, enclosed, htext]
      exact .entries hcs

end PipelineCompiler.Json
