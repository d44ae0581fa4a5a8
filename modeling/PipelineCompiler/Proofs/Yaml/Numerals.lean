import Mathlib
import PipelineCompiler.Proofs.Json.Numbers
import PipelineCompiler.Proofs.Walk
import PipelineCompiler.Yaml.Scalar
import PipelineCompiler.Yaml.Writer

namespace PipelineCompiler.Yaml

/-!
# Numbers are read back from YAML

A number is written without quotes, and its text looks like a number of its type.

* `Numeric` — the texts with the characters of numbers;
* `tag_int`, `wholeValue_toString` — whole numbers;
* `tag_float`, `decimalValue_render` — floats.
-/

open Number

/-! ### The characters of numbers -/

/-- The characters of numbers with digits. -/
def numerals : List Char :=
  ['0', '1', '2', '3', '4', '5', '6', '7', '8', '9', '.', '+', '-', 'e']

/-- A text that consists of such characters. -/
def Numeric (cs : List Char) : Prop := ∀ c ∈ cs, c ∈ numerals

/-- Digits are among them. -/
theorem numeric_of_allDigits {cs : List Char} (h : AllDigits cs) : Numeric cs := by
  intro c hc
  obtain ⟨hlow, hhigh⟩ : 48 ≤ c.toNat ∧ c.toNat ≤ 57 := Char.isDigit_iff_toNat.mp (h c hc)
  have hall : ∀ n < 10, Char.ofNat (48 + n) ∈ numerals := by decide
  have hmem := hall (c.toNat - 48) (by omega)
  rwa [Nat.add_sub_cancel' hlow, Char.ofNat_toNat] at hmem

/-- Texts in two parts. -/
theorem numeric_append {xs ys : List Char} : Numeric (xs ++ ys) ↔ Numeric xs ∧ Numeric ys :=
  List.forall_mem_append

section

variable {cs : List Char} (h : Numeric cs)

include h

/-- What holds of these characters holds throughout such a text. -/
theorem Numeric.all {p : Char → Bool} (hp : numerals.all p = true) : ∀ c ∈ cs, p c = true :=
  fun c hc => List.all_eq_true.mp hp c (h c hc)

/-- The others do not occur in it. -/
theorem Numeric.not_mem {x : Char} (hx : numerals.contains x = false) : x ∉ cs := by
  intro hmem
  rw [List.contains_iff_mem.mpr (h x hmem)] at hx
  cases hx

/-- A map that keeps these characters keeps the text. -/
theorem Numeric.map_eq {f : Char → Char} (hf : (numerals.all fun c => f c == c) = true) :
    cs.map f = cs :=
  (List.map_congr_left fun c hc => eq_of_beq (h.all hf c hc)).trans (List.map_id cs)

/-- Its form is its own. -/
theorem Numeric.formOf_eq : formOf cs = cs := by
  have hlast : (cs.getLast? == some '\n') = false := by
    rw [beq_eq_false_iff_ne]
    exact fun heq => h.not_mem (by decide) (List.mem_of_getLast? heq)
  rw [formOf, hlast, Bool.and_false, if_neg Bool.false_ne_true]

/-- It is no word for truth. -/
theorem Numeric.not_boolean : looksBoolean cs = false := by
  have hwords : (["yes", "no", "true", "false", "on", "off"].all fun word =>
      (spellings word).all fun w => w.head?.any fun c => !numerals.contains c) = true := by
    decide
  rw [← Bool.not_eq_true]
  intro hlooks
  obtain ⟨word, hword, hmem⟩ := List.any_eq_true.mp hlooks
  have hhead := List.all_eq_true.mp (List.all_eq_true.mp hwords word hword) cs
    (List.contains_iff_mem.mp hmem)
  obtain ⟨c, hc, hnone⟩ := (Option.any_eq_true _ _).mp hhead
  rw [List.contains_iff_mem.mpr (h c (List.mem_of_head? hc))] at hnone
  cases hnone

/-- It has no underscores. -/
theorem Numeric.filter_eq : cs.filter (· != '_') = cs :=
  List.filter_eq_self.mpr (h.all (by decide))

/-- Nothing stands around it. -/
theorem Numeric.trim_eq : Text.trim isOuterBlank cs = cs := by
  have hdrop : ∀ xs : List Char, Numeric xs → xs.dropWhile isOuterBlank = xs := by
    intro xs hxs
    cases xs with
    | nil => rfl
    | cons x rest =>
      have hx := hxs.all (p := fun c => !isOuterBlank c) (by decide) x List.mem_cons_self
      exact List.dropWhile_cons_of_neg (by simpa using hx)
  have hreverse : Numeric cs.reverse := fun c hc => h c (List.mem_reverse.mp hc)
  rw [Text.trim, hdrop cs h, hdrop _ hreverse, List.reverse_reverse]

/-- It has no other case. -/
theorem Numeric.lower_eq : Text.lower (String.ofList cs) = String.ofList cs :=
  lower_eq_self cs (List.all_eq_true.mpr (h.all (by decide)))

/-- Without underscores it is the same. -/
theorem Numeric.withoutUnderscores?_eq (before : Option Char) :
    withoutUnderscores? before cs = some cs := by
  induction cs generalizing before with
  | nil => rfl
  | cons c rest ih =>
    have hne : c ≠ '_' := by
      rintro rfl
      exact h.not_mem (by decide) List.mem_cons_self
    rw [withoutUnderscores?.eq_3 _ _ _ (fun heq => hne heq),
      ih (fun d hd => h d (List.mem_cons_of_mem _ hd))]
    rfl

/-- It is one part between colons. -/
theorem Numeric.colonParts_eq : colonParts cs = [cs] :=
  List.splitOnP_eq_singleton fun c hc => by simpa using h.all (p := (· != ':')) (by decide) c hc

end

/-! ### Signs -/

/-- A text behind its sign. -/
def signed (negative : Bool) (cs : List Char) : List Char := if negative then '-' :: cs else cs

/-- The texts that start with a digit and consist of the characters of numbers. -/
structure Unsigned (cs : List Char) : Prop where
  numeric : Numeric cs
  first : ∃ d rest, cs = d :: rest ∧ d.isDigit = true

section

variable {cs : List Char} (h : Unsigned cs) (negative : Bool)

include h

/-- With a sign it consists of these characters as well. -/
theorem Unsigned.numeric_signed : Numeric (signed negative cs) := by
  unfold signed
  split
  · exact List.forall_mem_cons.mpr ⟨by decide, h.numeric⟩
  · exact h.numeric

/-- The sign is taken off. -/
theorem Unsigned.sign_eq : Number.sign (signed negative cs) = (negative, cs) := by
  obtain ⟨d, rest, rfl, hd⟩ := h.first
  cases negative with
  | true => rfl
  | false =>
    unfold signed Number.sign
    rw [if_neg Bool.false_ne_true]
    split
    next heq =>
      obtain ⟨rfl, -⟩ := List.cons.inj heq
      cases hd
    next heq =>
      obtain ⟨rfl, -⟩ := List.cons.inj heq
      cases hd
    next => rfl

/-- There is something to read. -/
theorem Unsigned.ne_nil : cs ≠ [] := by
  obtain ⟨d, rest, rfl, -⟩ := h.first
  exact List.cons_ne_nil d rest

/-- So it is with a sign. -/
theorem Unsigned.signOf_eq : signOf (signed negative cs) = .ok (negative, cs) := by
  have hne : (signed negative cs).isEmpty = false := by
    have := h.ne_nil
    cases negative with
    | true => rfl
    | false => exact List.isEmpty_eq_false_iff.mpr this
  rw [signOf, hne, if_neg Bool.false_ne_true, h.sign_eq]

end

/-! ### Whole numbers -/

/-- Digits are without a sign. -/
theorem unsigned_toDigits (n : Nat) : Unsigned (Nat.toDigits 10 n) := by
  have hall := allDigits_toDigits n
  refine ⟨numeric_of_allDigits hall, ?_⟩
  cases hdigits : Nat.toDigits 10 n with
  | nil => exact absurd hdigits Nat.toDigits_ne_nil
  | cons d rest => exact ⟨d, rest, rfl, (hdigits ▸ hall) d List.mem_cons_self⟩

/-- Digits have no point. -/
theorem looksDecimal_toDigits (negative : Bool) (n : Nat) :
    looksDecimal (signed negative (Nat.toDigits 10 n)) = false := by
  have htake : (Nat.toDigits 10 n).takeWhile (fun c => c != '.') = Nat.toDigits 10 n :=
    List.takeWhile_eq_self_iff.mpr fun c hc => by
      rw [bne_iff_ne]
      rintro rfl
      cases allDigits_toDigits n _ hc
  unfold looksDecimal
  rw [(unsigned_toDigits n).sign_eq negative]
  dsimp only
  rw [htake, List.drop_length]

/-- Digits look like a whole number. -/
theorem looksWhole_toDigits (negative : Bool) (n : Nat) :
    looksWhole (signed negative (Nat.toDigits 10 n)) = true := by
  have hnumeric := (unsigned_toDigits n).numeric
  have hall := allDigits_toDigits n
  unfold looksWhole
  rw [(unsigned_toDigits n).sign_eq negative]
  dsimp only
  -- Zero alone, or digits that start with another one, are no octal and no hexadecimal number.
  rcases Json.toDigits_first n with hzero | ⟨d, rest, hdigits, hne⟩
  · rw [hzero]
    rfl
  · have hparts := hnumeric.colonParts_eq
    rw [hdigits] at hparts hall ⊢
    have hdigit : looksPositive (d :: rest) = true := by
      have hunderscore : (d :: rest).all isDigitOrUnderscore = true := List.all_eq_true.mpr
        fun c hc => by rw [isDigitOrUnderscore, hall c hc, Bool.true_or]
      rw [looksPositive, looksDigits, hunderscore, List.head?_cons, Option.any_some,
        hall d List.mem_cons_self]
      exact bne_iff_ne.mpr fun heq => hne (Option.some.inj heq)
    split
    next heq => exact absurd (List.cons.inj heq).1 hne
    next heq => exact absurd (List.cons.inj heq).1 hne
    next heq => exact absurd (List.cons.inj heq).1 hne
    next =>
      rw [hparts]
      dsimp only
      rw [hdigit]
      rfl

/-- **A whole number looks like one.** -/
theorem tag_int (i : Int) : Tag.ofPlain (toString i) = .int := by
  obtain ⟨negative, -, htext⟩ := Json.exists_sign i []
  have hchars : (toString i).toList = signed negative (Nat.toDigits 10 i.natAbs) := by
    simpa [signed] using htext
  have hnumeric := (unsigned_toDigits i.natAbs).numeric_signed negative
  unfold Tag.ofPlain
  rw [hchars, hnumeric.formOf_eq]
  dsimp only
  rw [hnumeric.not_boolean, looksDecimal_toDigits, looksWhole_toDigits]
  rfl

/-- Digits are read one by one. -/
theorem digits?_allDigits {cs : List Char} (h : AllDigits cs) {bare : Bool}
    (hbare : bare = true ∨ cs ≠ []) : digits? 10 bare cs = some (cs.filterMap baseDigit?) := by
  induction cs generalizing bare with
  | nil =>
    obtain rfl := hbare.resolve_right (fun hne => hne rfl)
    rfl
  | cons c rest ih =>
    obtain ⟨hc, hrest⟩ := List.forall_mem_cons.mp h
    have hdigit := baseDigit?_eq hc
    have hlt := baseDigit?_lt hc hdigit
    have hne : c ≠ '_' := by
      rintro rfl
      cases hc
    rw [digits?.eq_3 _ _ _ _ (fun heq => hne heq), hdigit]
    dsimp only
    rw [if_pos hlt, ih hrest (.inl rfl), List.filterMap_cons_some hdigit]
    rfl

/-- Digits are read as a whole number. -/
theorem integer?_allDigits {cs : List Char} (h : AllDigits cs) (hunsigned : Unsigned cs)
    (hshort : cs.length ≤ digitLimit) : integer? 10 cs = some (valueOf cs : ℤ) := by
  -- Digits are no blanks, signs or marks, so every step before the digits does nothing.
  have hmap : cs.map asciiDigit = cs := hunsigned.numeric.map_eq (by decide)
  have hmarked : unmarked 10 cs = (false, cs) := by
    unfold unmarked
    split
    · exact if_neg (List.not_mem_nil)
    · rfl
  have hlength : ¬ digitLimit < (cs.filterMap baseDigit?).length :=
    Nat.not_lt.mpr (Nat.le_trans (List.length_filterMap_le _ _) hshort)
  have hsign := hunsigned.sign_eq false
  unfold signed at hsign
  rw [if_neg Bool.false_ne_true] at hsign
  rw [integer?, hunsigned.numeric.trim_eq, hmap, hsign]
  dsimp only
  rw [hmarked]
  dsimp only
  rw [digits?_allDigits h (.inr hunsigned.ne_nil)]
  simp only [Option.bind_eq_bind, Option.bind_some]
  rw [if_neg (fun hlong => hlength hlong.2), ← ofDigits_eq h]
  rfl

/-- **A whole number is read back.** -/
theorem wholeValue_toString {i : Int} (hshort : isTooLong i = false) :
    wholeValue (toString i) = .ok i := by
  obtain ⟨negative, hvalue, htext⟩ := Json.exists_sign i []
  have hchars : (toString i).toList = signed negative (Nat.toDigits 10 i.natAbs) := by
    simpa [signed] using htext
  have hunsigned := unsigned_toDigits i.natAbs
  have hmagnitude : isTooLong (i.natAbs : ℤ) = false := hshort
  have hlength := Json.length_toDigits_le hmagnitude
  have hread := integer?_allDigits (allDigits_toDigits i.natAbs) hunsigned hlength
  have hcolon : (Nat.toDigits 10 i.natAbs).contains ':' = false := by
    rw [← Bool.not_eq_true, List.contains_iff_mem]
    exact hunsigned.numeric.not_mem (by decide)
  rw [valueOf_toDigits] at hread
  unfold wholeValue
  rw [hchars, (hunsigned.numeric_signed negative).filter_eq, hunsigned.signOf_eq]
  dsimp only [Bind.bind, Except.bind]
  -- Zero is read at once; in all other numbers the first digit rules out the prefixes.
  rcases Json.toDigits_first i.natAbs with hzero | ⟨d, rest, hdigits, hne⟩
  · have habs : i.natAbs = 0 := by
      rw [← valueOf_toDigits i.natAbs, hzero]
      rfl
    rw [hzero]
    rw [habs] at hvalue
    rw [hvalue]
    rfl
  · rw [hdigits] at hcolon hread ⊢
    split
    next heq => cases heq
    next heq => exact absurd (List.cons.inj heq).1 hne
    next heq => exact absurd (List.cons.inj heq).1 hne
    next heq => exact absurd (List.cons.inj heq).1 hne
    next heq => exact absurd (List.cons.inj heq).1 hne
    next =>
      rw [hcolon, if_neg Bool.false_ne_true, integerOf, hread]
      exact congrArg Except.ok hvalue.symm

/-! ### Floats -/

variable {p : Pieces}

/-- Pieces with digits behind the point. -/
theorem pointed_eq (hfraction : p.fraction ≠ []) : p.pointed = '.' :: p.fraction :=
  if_neg hfraction

/-- The exponent of pieces, if there is one, is marked. -/
theorem marked_cases (p : Pieces) : (p.exponent = none ∧ p.marked = []) ∨
    ∃ e ds, p.exponent = some e ∧ AllDigits ds ∧ ds ≠ [] ∧ valueOf ds = e.natAbs ∧
      p.marked = 'e' :: (if e < 0 then '-' else '+') :: ds := by
  rw [Pieces.marked]
  cases p.exponent with
  | none => exact .inl ⟨rfl, rfl⟩
  | some e =>
    obtain ⟨ds, hdigits, hne, hvalue, htext⟩ := Json.exists_exponentDigits e
    exact .inr ⟨e, ds, rfl, hdigits, hne, hvalue, htext⟩

/-- The mark of an exponent looks like one. -/
theorem looksExponent_marked (p : Pieces) : looksExponent p.marked = true := by
  rcases marked_cases p with ⟨-, hmarked⟩ | ⟨e, ds, -, hdigits, hne, -, hmarked⟩
  · rw [hmarked]
    rfl
  · have hall : ds.all Char.isDigit = true := List.all_eq_true.mpr hdigits
    rw [hmarked, looksExponent, hall, List.isEmpty_eq_false_iff.mpr hne]
    split <;> rfl

/-- The exponent is read. -/
theorem exponent?_marked (p : Pieces) : exponent? p.marked = some (p.exponent.getD 0) := by
  -- Without an exponent there is no mark and the power is zero.
  rcases marked_cases p with ⟨hnone, hmarked⟩ | ⟨e, ds, hsome, hdigits, hne,
    hvalue, hmarked⟩
  · rw [hnone, hmarked]
    rfl
  · have hall : ds.all Char.isDigit = true := List.all_eq_true.mpr hdigits
    have hsign : Number.sign ((if e < 0 then '-' else '+') :: ds) = (decide (e < 0), ds) := by
      split
      next h => rw [Number.sign, decide_eq_true h]
      next h => rw [Number.sign, decide_eq_false h]
    rw [hsome, hmarked, exponent?, if_pos (by decide), hsign]
    dsimp only
    rw [hall, List.isEmpty_eq_false_iff.mpr hne, if_neg (by decide), ofDigits_eq hdigits, hvalue,
      Option.getD_some]
    congr 1
    split
    next h =>
      have := of_decide_eq_true h
      omega
    next h =>
      have := of_decide_eq_false (Bool.not_eq_true _ ▸ h)
      omega

section

variable (h : p.Proper)

include h

/-- Pieces are without a sign. -/
theorem unsigned_pieces : Unsigned p.chars := by
  have hmarked : Numeric p.marked := by
    -- The mark is a letter and a sign before digits.
    rcases marked_cases p with ⟨-, hmarked⟩ | ⟨e, ds, -, hdigits, -, -, hmarked⟩
    · rw [hmarked]
      exact List.forall_mem_nil _
    · rw [hmarked]
      refine List.forall_mem_cons.mpr ⟨by decide, List.forall_mem_cons.mpr ⟨?_, ?_⟩⟩
      · split <;> decide
      · exact numeric_of_allDigits hdigits
  have hpointed : Numeric p.pointed := by
    rw [Pieces.pointed]
    split
    · exact List.forall_mem_nil _
    · exact List.forall_mem_cons.mpr ⟨by decide, numeric_of_allDigits h.fraction⟩
  refine ⟨numeric_append.mpr ⟨numeric_of_allDigits h.whole,
    numeric_append.mpr ⟨hpointed, hmarked⟩⟩, ?_⟩
  have hwhole := h.whole
  have hne := h.whole_ne_nil
  rw [Pieces.chars]
  cases hdigits : p.whole with
  | nil => exact absurd hdigits hne
  | cons d rest => exact ⟨d, _, rfl, (hdigits ▸ hwhole) d List.mem_cons_self⟩

/-- Digits before the point look like a number. -/
theorem looksDigits_whole : looksDigits p.whole = true := by
  have hwhole := h.whole
  have hne := h.whole_ne_nil
  have hall : p.whole.all isDigitOrUnderscore = true := List.all_eq_true.mpr fun c hc => by
    rw [isDigitOrUnderscore, hwhole c hc, Bool.true_or]
  rw [looksDigits, hall, Bool.and_true]
  cases hdigits : p.whole with
  | nil => exact absurd hdigits hne
  | cons d rest => exact (hdigits ▸ hwhole) d List.mem_cons_self

variable (hfraction : p.fraction ≠ []) (negative : Bool)

include hfraction

/-- Pieces look like a decimal. -/
theorem looksDecimal_pieces : looksDecimal (signed negative p.chars) = true := by
  have hchars : p.chars = p.whole ++ '.' :: (p.fraction ++ p.marked) := by
    rw [Pieces.chars, pointed_eq hfraction, List.cons_append]
  -- The point divides the digits, none of which is one.
  have hwhole : p.chars.takeWhile (fun c => c != '.') = p.whole := by
    rw [hchars, List.takeWhile_append_of_pos fun c hc => ?_]
    · exact List.append_nil _
    · rw [bne_iff_ne]
      rintro rfl
      cases h.whole _ hc
  have hdigits : (p.fraction ++ p.marked).takeWhile isDigitOrUnderscore = p.fraction := by
    rw [List.takeWhile_append_of_pos fun c hc => by
      rw [isDigitOrUnderscore, h.fraction c hc, Bool.true_or]]
    rcases marked_cases p with ⟨-, hmarked⟩ | ⟨e, ds, -, -, -, -, hmarked⟩
    · rw [hmarked]
      exact List.append_nil _
    · rw [hmarked]
      exact List.append_nil _
  have hempty : p.whole.isEmpty = false := List.isEmpty_eq_false_iff.mpr h.whole_ne_nil
  have hparts := (numeric_of_allDigits h.whole).colonParts_eq
  unfold looksDecimal
  rw [(unsigned_pieces h).sign_eq negative]
  dsimp only
  rw [hwhole, hchars, List.drop_left, hempty, hparts]
  show (looksDigits p.whole && looksExponent (List.drop
    ((p.fraction ++ p.marked).takeWhile isDigitOrUnderscore).length (p.fraction ++ p.marked))) =
      true
  rw [hdigits, List.drop_left, looksDigits_whole h, looksExponent_marked]
  rfl

/-- Their parts are read. -/
theorem unsignedDecimal?_pieces : unsignedDecimal? false p.chars =
    some (scale false (valueOf (p.whole ++ p.fraction)) p.power) := by
  -- What follows the digits is a point, a mark of the exponent or the end.
  have hend : ∀ c ∈ p.marked.head?, c.isDigit = false := by
    rcases marked_cases p with ⟨-, hmarked⟩ | ⟨e, ds, -, -, -, -, hmarked⟩
    · rw [hmarked]
      exact fun c hc => absurd hc (by simp)
    · rw [hmarked]
      intro c hc
      obtain rfl := Option.some.inj hc
      rfl
  have hpoint : ∀ c ∈ (p.pointed ++ p.marked).head?, c.isDigit = false := by
    rw [pointed_eq hfraction]
    intro c hc
    obtain rfl := Option.some.inj hc
    rfl
  obtain ⟨hwhole, hrest⟩ := Json.takeWhile_digits h.whole hpoint
  obtain ⟨hdigits, hmarked⟩ := Json.takeWhile_digits h.fraction hend
  have hempty : p.whole.isEmpty = false := List.isEmpty_eq_false_iff.mpr h.whole_ne_nil
  rw [unsignedDecimal?, Pieces.chars, hwhole, hrest, pointed_eq hfraction]
  dsimp only [List.cons_append]
  rw [hempty, Bool.false_and, if_neg Bool.false_ne_true]
  show (do
    let power ← exponent? ((p.fraction ++ p.marked).dropWhile Char.isDigit)
    pure (scale false (ofDigits 10 ((p.whole ++
      (p.fraction ++ p.marked).takeWhile Char.isDigit).filterMap baseDigit?))
        (power - ((p.fraction ++ p.marked).takeWhile Char.isDigit).length))) = _
  rw [hmarked, hdigits, exponent?_marked,
    ofDigits_eq (allDigits_append.mpr ⟨h.whole, h.fraction⟩)]
  rfl

/-- They are read. -/
theorem decimalOf_pieces :
    decimalOf p.chars = .ok (scale false (valueOf (p.whole ++ p.fraction)) p.power) := by
  have hunsigned := unsigned_pieces h
  have hbare := hunsigned.numeric.withoutUnderscores?_eq none
  have hmap : p.chars.map asciiDigit = p.chars := hunsigned.numeric.map_eq (by decide)
  have hlower : p.chars.map Char.toLower = p.chars := hunsigned.numeric.map_eq (by decide)
  have hsign := hunsigned.sign_eq false
  unfold signed at hsign
  rw [if_neg Bool.false_ne_true] at hsign
  obtain ⟨d, rest, hfirst, hd⟩ := hunsigned.first
  -- Digits come first, so it is none of the words.
  have hword : ∀ word : String, (word.toList.head?.any fun c => !c.isDigit) = true →
      (String.ofList p.chars == word) = false := by
    intro word hword
    rw [beq_eq_false_iff_ne]
    rintro rfl
    rw [String.toList_ofList, hfirst, List.head?_cons, Option.any_some, hd] at hword
    cases hword
  have hread := unsignedDecimal?_pieces h hfraction
  have hdecimal : decimal? p.chars =
    some (scale false (valueOf (p.whole ++ p.fraction)) p.power) := by
    rw [decimal?, hunsigned.numeric.trim_eq, hmap, hbare, Option.bind_eq_bind, Option.bind_some,
      hsign]
    dsimp only
    rw [hlower, hword _ (by decide), hword _ (by decide), hword _ (by decide), hread]
    rfl
  rw [decimalOf, hdecimal]

end

/-- How the floats that have no digits are written. -/
theorem render_undigited {x : Float} (h : x.isNaN = true ∨ x.isInf = true) :
    Number.render layout x = if x.isNaN then ".nan" else if x < 0 then "-.inf" else ".inf" := by
  unfold Number.render
  cases hnan : x.isNaN with
  | true => rfl
  | false =>
    have hinf := h.resolve_left (by rw [hnan]; exact Bool.false_ne_true)
    rw [hinf, if_neg Bool.false_ne_true, if_neg Bool.false_ne_true, if_pos rfl]
    rfl

/-- **A float looks like one.** -/
theorem tag_float (x : Float) : Tag.ofPlain (Number.render layout x) = .float := by
  by_cases hdigits : x.isNaN = true ∨ x.isInf = true
  · rw [render_undigited hdigits]
    split
    · decide
    · split <;> decide
  · obtain ⟨hnan, hinf⟩ := not_or.mp hdigits
    obtain ⟨p, hproper, hfraction, hchars, -⟩ := exists_pieces layout
      (Bool.not_eq_true _ ▸ hnan) (Bool.not_eq_true _ ▸ hinf)
    have hnumeric := (unsigned_pieces hproper).numeric_signed (Parts.ofFloat x).negative
    unfold Tag.ofPlain
    rw [hchars]
    show (if looksBoolean (formOf (signed _ p.chars)) then _ else
      if looksDecimal (formOf (signed _ p.chars)) then _ else _) = Tag.float
    rw [hnumeric.formOf_eq, hnumeric.not_boolean, looksDecimal_pieces hproper (hfraction rfl)]
    rfl

/-- The value of a word for what has no digits. -/
theorem decimalValue_word (place : Nat) (negative : Bool) {text : String}
    (h : text.toList = signed negative ['.', 'i', 'n', 'f']) :
    decimalValue place text = .ok (.float (if negative then -(1 / 0) else 1 / 0)) := by
  have hfilter : text.toList.filter (· != '_') = signed negative ['.', 'i', 'n', 'f'] := by
    rw [h]
    cases negative <;> decide
  have hlower : Text.lower (String.ofList (signed negative ['.', 'i', 'n', 'f'])) =
      String.ofList (signed negative ['.', 'i', 'n', 'f']) :=
    lower_eq_self _ (by cases negative <;> decide)
  unfold decimalValue
  rw [hfilter, hlower, ← Number.sign_mul]
  cases negative <;> rfl

/-- A float that has no digits is read back. -/
theorem decimalValue_undigited (place : Nat) {x : Float} (h : x.isNaN = true ∨ x.isInf = true) :
    decimalValue place (Number.render layout x) = .ok (.float x) := by
  rw [render_undigited h]
  -- The three words have the dot in front, and are compared in lower case.
  cases hnan : x.isNaN with
  | true =>
    have hlower : Text.lower (String.ofList (".nan".toList.filter (· != '_'))) = ".nan" :=
      lower_eq_self ['.', 'n', 'a', 'n'] (by decide)
    rw [if_pos rfl, eq_nan hnan]
    unfold decimalValue
    rw [hlower]
    rfl
  | false =>
    have hinf := h.resolve_left (by rw [hnan]; exact Bool.false_ne_true)
    have hx := eq_infinity hinf
    rw [if_neg Bool.false_ne_true]
    split
    next hnegative =>
      rw [if_pos hnegative] at hx
      rw [hx]
      exact decimalValue_word place true rfl
    next hpositive =>
      rw [if_neg hpositive] at hx
      rw [hx]
      exact decimalValue_word place false rfl

/-- **A float is read back.** -/
theorem decimalValue_render (place : Nat) (x : Float) :
    decimalValue place (Number.render layout x) = .ok (.float x) := by
  -- An infinity or what is no number is a word; all others have pieces.
  by_cases hdigits : x.isNaN = true ∨ x.isInf = true
  · exact decimalValue_undigited place hdigits
  · obtain ⟨hnan, hinf⟩ := not_or.mp hdigits
    obtain ⟨p, hproper, hfraction, hchars, hscale⟩ := exists_pieces layout
      (Bool.not_eq_true _ ▸ hnan) (Bool.not_eq_true _ ▸ hinf)
    have hunsigned := unsigned_pieces hproper
    have hnumeric := hunsigned.numeric_signed (Parts.ofFloat x).negative
    have hread := decimalOf_pieces hproper (hfraction rfl)
    have hcolon : p.chars.contains ':' = false := by
      rw [← Bool.not_eq_true, List.contains_iff_mem]
      exact hunsigned.numeric.not_mem (by decide)
    have hvalue : (if (Parts.ofFloat x).negative then -1 else 1 : Float) *
        scale false (valueOf (p.whole ++ p.fraction)) p.power = x := by
      rw [sign_mul]
      refine Eq.trans ?_ hscale
      cases (Parts.ofFloat x).negative with
      | false => rfl
      | true => rfl
    have hword : ∀ word : List Char, (word.head?.any fun c => !c.isDigit) = true →
        (p.chars == word) = false := by
      intro word hhead
      obtain ⟨d, rest, hfirst, hd⟩ := hunsigned.first
      rw [beq_eq_false_iff_ne]
      rintro rfl
      rw [hfirst, List.head?_cons, Option.any_some, hd] at hhead
      cases hhead
    have hlowered :
      Text.lower (String.ofList ((Number.render layout x).toList.filter (· != '_'))) =
        String.ofList (signed (Parts.ofFloat x).negative p.chars) := by
      rw [hchars.trans (show _ = signed _ p.chars from rfl), hnumeric.filter_eq, hnumeric.lower_eq]
    unfold decimalValue
    rw [hlowered]
    dsimp only
    rw [String.toList_ofList, hunsigned.signOf_eq]
    dsimp only [Bind.bind, Except.bind]
    rw [hword _ (by decide), hword _ (by decide), hcolon, hread, if_neg Bool.false_ne_true,
      if_neg Bool.false_ne_true, if_neg Bool.false_ne_true]
    dsimp only
    rw [hvalue, computed, if_neg hnan]
    rfl

end PipelineCompiler.Yaml
