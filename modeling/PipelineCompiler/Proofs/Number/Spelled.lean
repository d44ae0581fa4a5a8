import Mathlib
import PipelineCompiler.Proofs.Number.Characters
import PipelineCompiler.Proofs.Number.Digits
import PipelineCompiler.Proofs.Number.Interval

namespace PipelineCompiler.Number

/-!
# The spelling of floats

A finite float is written as digits with a point, an exponent or both, and the digits denote a
number near the float.

* `Pieces` — the digits before and after a point, and an exponent;
* `ofGrid_value` — a decimal keeps its number when the zeros at its end are dropped;
* `chars_pieces`, `proper_pieces`, `value_pieces` — a decimal is written in such pieces, which
  read as a decimal and denote it;
* `exists_pieces` — those of a float are scaled to it.
-/

/-! ### Digits -/

/-- Whether all characters are decimal digits. -/
def AllDigits (cs : List Char) : Prop := ∀ c ∈ cs, c.isDigit = true

/-- Digits in two parts. -/
theorem allDigits_append {xs ys : List Char} :
    AllDigits (xs ++ ys) ↔ AllDigits xs ∧ AllDigits ys :=
  List.forall_mem_append

/-- The digits of a number. -/
theorem allDigits_toDigits (n : Nat) : AllDigits (Nat.toDigits 10 n) := fun _ hc =>
  Nat.isDigit_of_mem_toDigits (by decide) (by decide) hc

/-- Zeros are digits. -/
theorem allDigits_zeros (n : Nat) : AllDigits (List.replicate n '0') := by
  intro c hc
  rw [List.eq_of_mem_replicate hc]
  rfl

/-- The number that decimal digits stand for. -/
def valueOf (cs : List Char) : Nat := Nat.ofDigitChars 10 cs 0

/-- The value of a decimal digit. -/
theorem baseDigit?_eq {c : Char} (h : c.isDigit = true) :
    baseDigit? c = some (c.toNat - '0'.toNat) := by
  have hc := Char.isDigit_iff_toNat.mp h
  exact if_pos ⟨Char.le_def.mpr hc.1, Char.le_def.mpr hc.2⟩

/-- The digits that are read stand for their number. -/
theorem ofDigits_eq {cs : List Char} (h : AllDigits cs) :
    ofDigits 10 (cs.filterMap baseDigit?) = valueOf cs := by
  have hmap : cs.filterMap baseDigit? = cs.map fun c => c.toNat - '0'.toNat := by
    rw [← List.filterMap_eq_map]
    exact List.filterMap_congr fun c hc => baseDigit?_eq (h c hc)
  rw [hmap, ofDigits, List.foldl_map]
  rfl

/-- Digits behind others. -/
theorem valueOf_append (xs ys : List Char) :
    valueOf (xs ++ ys) = valueOf xs * 10 ^ ys.length + valueOf ys := by
  rw [valueOf, Nat.ofDigitChars_append, Nat.ofDigitChars_eq_ofDigitChars_zero, Nat.mul_comm]
  rfl

/-- Zeros stand for nothing. -/
theorem valueOf_zeros (n : Nat) : valueOf (List.replicate n '0') = 0 := by
  rw [valueOf, Nat.ofDigitChars_replicate_zero]
  exact Nat.mul_zero _

/-- The digits of a number stand for it. -/
theorem valueOf_toDigits (n : Nat) : valueOf (Nat.toDigits 10 n) = n :=
  Nat.ofDigitChars_ten_toDigits

/-- Zeros before digits make no difference. -/
theorem valueOf_zeros_append (n : Nat) (cs : List Char) :
    valueOf (List.replicate n '0' ++ cs) = valueOf cs := by
  rw [valueOf_append, valueOf_zeros, Nat.zero_mul, Nat.zero_add]

/-- Zeros behind digits. -/
theorem valueOf_append_zeros (n : Nat) (cs : List Char) :
    valueOf (cs ++ List.replicate n '0') = valueOf cs * 10 ^ n := by
  rw [valueOf_append, valueOf_zeros, Nat.add_zero, List.length_replicate]

/-- Digits stand for less than the power of ten with as many zeros. -/
theorem valueOf_lt {cs : List Char} (h : AllDigits cs) : valueOf cs < 10 ^ cs.length := by
  have hlt : ofDigits 10 (cs.filterMap baseDigit?) < 10 ^ (cs.filterMap baseDigit?).length := by
    refine ofDigits_lt fun d hd => ?_
    obtain ⟨c, hc, hvalue⟩ := List.mem_filterMap.mp hd
    exact baseDigit?_lt (h c hc) hvalue
  rw [ofDigits_eq h] at hlt
  exact hlt.trans_le (Nat.pow_le_pow_right (by decide) (List.length_filterMap_le _ _))

/-- The characters of zeros. -/
theorem toList_zeros (n : Nat) : ("".pushn '0' n).toList = List.replicate n '0' :=
  toList_pushn "" '0' n

/-! ### The digits of a decimal -/

/-- Digits that start with no zero. -/
structure Leading (cs : List Char) : Prop where
  digits : AllDigits cs
  first : ∃ c rest, cs = c :: rest ∧ c ≠ '0'

/-- The digits of a positive number start with no zero. -/
theorem leading_toDigits {n : Nat} (hpos : 0 < n) : Leading (Nat.toDigits 10 n) := by
  refine ⟨allDigits_toDigits n, ?_⟩
  cases hdigits : Nat.toDigits 10 n with
  | nil =>
    have := @Nat.length_toDigits_pos 10 n
    rw [hdigits] at this
    cases this
  | cons c rest =>
    refine ⟨c, rest, rfl, ?_⟩
    rintro rfl
    -- the digits behind a zero stand for less than the number
    have hlow := (toDigits_bounds hpos).1
    have hless := valueOf_lt fun c hc =>
      allDigits_toDigits n c (hdigits ▸ List.mem_cons_of_mem '0' hc)
    have hvalue := valueOf_toDigits n
    rw [hdigits] at hlow hvalue
    rw [← List.singleton_append, valueOf_append] at hvalue
    have hzero : valueOf ['0'] = 0 := rfl
    rw [hzero, Nat.zero_mul, Nat.zero_add] at hvalue
    rw [List.length_cons, Nat.add_sub_cancel] at hlow
    omega

/-- The zeros at the end of digits. -/
theorem exists_zeros (cs : List Char) : ∃ count, cs =
    (cs.reverse.dropWhile (· == '0')).reverse ++ List.replicate count '0' := by
  refine ⟨(cs.reverse.takeWhile (· == '0')).length, ?_⟩
  have hzeros : cs.reverse.takeWhile (· == '0') =
      List.replicate (cs.reverse.takeWhile (· == '0')).length '0' := by
    refine List.eq_replicate_iff.mpr ⟨rfl, fun c hc => ?_⟩
    have hall := List.all_takeWhile (p := (· == '0')) (l := cs.reverse)
    exact beq_iff_eq.mp (List.all_eq_true.mp hall c hc)
  conv_lhs => rw [← List.reverse_reverse cs, ← List.takeWhile_append_dropWhile
    (p := (· == '0')) (l := cs.reverse), List.reverse_append]
  conv_lhs =>
    arg 2
    rw [hzeros, List.reverse_replicate]

/-- **A decimal on a grid is its number**, and its digits start with no zero. -/
theorem ofGrid_value {n : Nat} (hpos : 0 < n) (power : ℤ) :
    Leading (Decimal.ofGrid n power).digits ∧
      (valueOf (Decimal.ofGrid n power).digits : ℚ) *
        10 ^ ((Decimal.ofGrid n power).point - (Decimal.ofGrid n power).digits.length) =
          n * 10 ^ power := by
  obtain ⟨count, hcount⟩ := exists_zeros (Nat.toDigits 10 n)
  obtain ⟨hall, c, rest, hfirst, hne⟩ := leading_toDigits hpos
  have hdigits : (Decimal.ofGrid n power).digits =
    ((Nat.toDigits 10 n).reverse.dropWhile (· == '0')).reverse := rfl
  have hpoint : (Decimal.ofGrid n power).point = (Nat.toDigits 10 n).length + power := rfl
  have hvalue := valueOf_toDigits n
  rw [← hdigits] at hcount
  generalize (Decimal.ofGrid n power).digits = digits at hcount ⊢
  generalize (Decimal.ofGrid n power).point = point at hpoint ⊢
  -- The digits begin as those of the number do, and these with no zero.
  constructor
  · refine ⟨(allDigits_append.mp (hcount ▸ hall)).1, ?_⟩
    cases digits with
    | nil =>
      rw [hfirst, List.nil_append] at hcount
      have hzero : c ∈ List.replicate count '0' := hcount ▸ List.mem_cons_self
      exact absurd (List.eq_of_mem_replicate hzero) hne
    | cons d more =>
      rw [hfirst, List.cons_append, List.cons.injEq] at hcount
      exact ⟨d, more, rfl, hcount.1 ▸ hne⟩
  · have hlength := congrArg List.length hcount
    rw [List.length_append, List.length_replicate] at hlength
    have hexponent : point - digits.length = count + power := by omega
    have hten : (10 : ℚ) ≠ 0 := by norm_num
    rw [hcount, valueOf_append_zeros] at hvalue
    rw [hexponent, zpow_add₀ hten, zpow_natCast, ← hvalue]
    push_cast
    ring

/-! ### Pieces -/

/-- Digits before and after a point, and an exponent. -/
structure Pieces where
  whole : List Char
  fraction : List Char
  exponent : Option ℤ

namespace Pieces

variable (p : Pieces)

/-- The point and the digits after it. -/
def pointed : List Char := if p.fraction = [] then [] else '.' :: p.fraction

/-- The text of the exponent. -/
def marked : List Char :=
  match p.exponent with
  | none => []
  | some e => (exponentText e).toList

/-- The text of the pieces. -/
def chars : List Char := p.whole ++ (p.pointed ++ p.marked)

/-- The power of ten of the last digit. -/
def power : ℤ := p.exponent.getD 0 - p.fraction.length

/-- The number that the pieces denote. -/
def value : ℚ := valueOf (p.whole ++ p.fraction) * 10 ^ p.power

/-- Pieces that read as a decimal: there is a digit before the point, no zero before another one,
    and a point or an exponent. -/
structure Proper : Prop where
  whole : AllDigits p.whole
  fraction : AllDigits p.fraction
  first : p.whole = ['0'] ∨ ∃ c rest, p.whole = c :: rest ∧ c ≠ '0'
  decimal : p.fraction ≠ [] ∨ p.exponent ≠ none

/-- There is a digit before the point. -/
theorem Proper.whole_ne_nil {p : Pieces} (h : p.Proper) : p.whole ≠ [] := by
  rcases h.first with hzero | ⟨c, rest, hfirst, -⟩
  · simp [hzero]
  · simp [hfirst]

end Pieces

/-- The pieces in which a decimal is written. -/
def Decimal.pieces (layout : Layout) (d : Decimal) : Pieces :=
  if -4 < d.point ∧ d.point ≤ 16 then
    if d.point ≤ 0 then ⟨['0'], List.replicate (-d.point).toNat '0' ++ d.digits, none⟩
    else if d.digits.length ≤ d.point.toNat then
      ⟨d.digits ++ List.replicate (d.point.toNat - d.digits.length) '0', ['0'], none⟩
    else ⟨d.digits.take d.point.toNat, d.digits.drop d.point.toNat, none⟩
  else
    ⟨d.digits.take 1,
      if d.digits.length ≤ 1 ∧ layout.pointBeforeExponent then ['0'] else d.digits.drop 1,
      some (d.point - 1)⟩

variable (layout : Layout) {d : Decimal}

/-- **A decimal is written in its pieces.** -/
theorem chars_pieces (h : Leading d.digits) :
    (d.render layout).toList = (d.pieces layout).chars := by
  obtain ⟨-, c, rest, hfirst, -⟩ := h
  rw [Decimal.render, Decimal.pieces]
  dsimp only
  -- The forms of a decimal in the order of the printer: a point before, behind or between the
  -- digits, or an exponent.
  split
  · split
    · simp [Pieces.chars, Pieces.pointed, Pieces.marked, toList_zeros, hfirst]
    · split
      · simp [Pieces.chars, Pieces.pointed, Pieces.marked, toList_zeros]
      · next hlong =>
        have hne : d.digits.drop d.point.toNat ≠ [] := by
          intro hnil
          exact hlong (List.drop_eq_nil_iff.mp hnil)
        simp [Pieces.chars, Pieces.pointed, Pieces.marked, hne]
  -- With an exponent, a single digit may do without a point.
  · cases rest with
    | nil =>
      rw [hfirst]
      cases layout.pointBeforeExponent with
      | false => simp [Pieces.chars, Pieces.pointed, Pieces.marked]
      | true => simp [Pieces.chars, Pieces.pointed, Pieces.marked]
    | cons second rest =>
      rw [hfirst]
      simp [Pieces.chars, Pieces.pointed, Pieces.marked]

/-- The pieces of a decimal read as one. -/
theorem proper_pieces (h : Leading d.digits) : (d.pieces layout).Proper := by
  obtain ⟨hall, c, rest, hfirst, hne⟩ := h
  have htake : ∀ n, AllDigits (d.digits.take n) := fun n c hc => hall c (List.mem_of_mem_take hc)
  have hdrop : ∀ n, AllDigits (d.digits.drop n) := fun n c hc => hall c (List.mem_of_mem_drop hc)
  have hzero : AllDigits ['0'] := allDigits_zeros 1
  rw [Decimal.pieces]
  -- Without an exponent the point stands before, behind or among the digits; with one it stands
  -- after the first.
  split
  · split
    · refine ⟨hzero, allDigits_append.mpr ⟨allDigits_zeros _, hall⟩, .inl rfl, .inl ?_⟩
      simp [hfirst]
    · next hpositive =>
      split
      · refine ⟨allDigits_append.mpr ⟨hall, allDigits_zeros _⟩, hzero,
          .inr ?_, .inl (by simp)⟩
        rw [hfirst]
        exact ⟨c, _, rfl, hne⟩
      · next hlong =>
        refine ⟨htake _, hdrop _, .inr ?_, .inl fun hnil =>
          hlong (List.drop_eq_nil_iff.mp hnil)⟩
        obtain ⟨n, hn⟩ : ∃ n, d.point.toNat = n + 1 :=
          Nat.exists_eq_succ_of_ne_zero (by omega)
        rw [hfirst, hn, List.take_succ_cons]
        exact ⟨c, _, rfl, hne⟩
  · refine ⟨htake 1, ?_, .inr ?_, .inr (by simp)⟩
    · dsimp only
      split
      · exact hzero
      · exact hdrop 1
    · rw [hfirst]
      exact ⟨c, [], rfl, hne⟩

/-- **The pieces of a decimal denote it.** -/
theorem value_pieces (h : Leading d.digits) :
    (d.pieces layout).value = valueOf d.digits * 10 ^ (d.point - d.digits.length) := by
  have hten : (10 : ℚ) ≠ 0 := by norm_num
  rw [Decimal.pieces, Pieces.value, Pieces.power]
  -- The same four layouts as in `proper_pieces`.
  split
  · split
    · next hsmall =>
      have hexponent : ((none : Option ℤ).getD 0) -
          (List.replicate (-d.point).toNat '0' ++ d.digits).length =
            d.point - d.digits.length := by
        rw [List.length_append, List.length_replicate, Option.getD_none]
        omega
      have hdigits : valueOf (['0'] ++ (List.replicate (-d.point).toNat '0' ++ d.digits)) =
          valueOf d.digits := by
        rw [← List.append_assoc, ← List.replicate_one, List.replicate_append_replicate,
          valueOf_zeros_append]
      dsimp only
      rw [hexponent, hdigits]
    · split
      · next hpositive hshort =>
        obtain ⟨count, hcount⟩ := Nat.exists_eq_add_of_le hshort
        have hdigits : valueOf (d.digits ++ List.replicate (d.point.toNat - d.digits.length) '0' ++
            ['0']) = valueOf d.digits * 10 ^ (count + 1) := by
          rw [List.append_assoc, ← List.replicate_one, List.replicate_append_replicate,
            valueOf_append_zeros, hcount, Nat.add_sub_cancel_left]
        have hexponent : d.point - d.digits.length = (count + 1 : Nat) + (-1) := by omega
        dsimp only
        rw [hdigits, hexponent, zpow_add₀ hten, zpow_natCast, Option.getD_none,
          List.length_singleton, Nat.cast_mul, Nat.cast_pow, mul_assoc]
        rfl
      · next hpositive hlong =>
        dsimp only
        rw [List.take_append_drop, List.length_drop, Option.getD_none]
        congr 2
        omega
  · obtain ⟨-, c, rest, hfirst, -⟩ := h
    dsimp only
    split
    · next hsingle =>
      have hnil : rest = [] := by
        have hlength := hsingle.1
        rw [hfirst, List.length_cons] at hlength
        exact List.eq_nil_of_length_eq_zero (by omega)
      have hdigits : valueOf ([c] ++ ['0']) = valueOf [c] * 10 := valueOf_append_zeros 1 [c]
      have hexponent : (10 : ℚ) ^ (d.point - 1) = 10 * 10 ^ (d.point - 1 - 1) := by
        rw [← zpow_one_add₀ hten]
        congr 1
        ring
      rw [hfirst, hnil]
      show ((valueOf ([c] ++ ['0']) : Nat) : ℚ) * 10 ^ (d.point - 1 - 1) =
        valueOf [c] * 10 ^ (d.point - 1)
      rw [hdigits, hexponent]
      push_cast
      ring
    · rw [List.take_append_drop, List.length_drop, Option.getD_some]
      congr 2
      rw [hfirst, List.length_cons]
      push_cast
      omega

/-- In a layout with a point before every exponent there are digits behind the point. -/
theorem fraction_pieces (hlayout : layout.pointBeforeExponent = true) (h : Leading d.digits) :
    (d.pieces layout).fraction ≠ [] := by
  obtain ⟨-, c, rest, hfirst, -⟩ := h
  rw [Decimal.pieces]
  split
  · split
    · simp [hfirst]
    · split
      · exact List.cons_ne_nil _ _
      next hlong => exact fun hnil => hlong (List.drop_eq_nil_iff.mp hnil)
  · dsimp only
    split
    · exact List.cons_ne_nil _ _
    next hmany => exact fun hnil => hmany ⟨List.drop_eq_nil_iff.mp hnil, hlayout⟩

/-! ### The pieces of a float -/

/-- **A finite float is written in pieces that are scaled to it.** -/
theorem exists_pieces {x : Float} (hnan : x.isNaN = false) (hinf : x.isInf = false) :
    ∃ p : Pieces, p.Proper ∧ (layout.pointBeforeExponent = true → p.fraction ≠ []) ∧
      (render layout x).toList =
        (if (Parts.ofFloat x).negative then '-' :: p.chars else p.chars) ∧
      scale (Parts.ofFloat x).negative (valueOf (p.whole ++ p.fraction)) p.power = x := by
  have hrender : ∀ text : String,
    (if (Parts.ofFloat x).negative then "-" ++ text else text).toList =
      if (Parts.ofFloat x).negative then '-' :: text.toList else text.toList := by
    intro text
    split
    · exact String.toList_append
    · rfl
  rw [render, hnan, hinf, if_neg Bool.false_ne_true, if_neg Bool.false_ne_true]
  dsimp only
  rw [hrender]
  -- Zero has no shortest digits and is written as it is.
  by_cases hzero : (Parts.ofFloat x).mantissa = 0
  · refine ⟨⟨['0'], ['0'], none⟩,
      ⟨allDigits_zeros 1, allDigits_zeros 1, .inl rfl, .inl (by simp)⟩,
      fun _ => List.cons_ne_nil _ _, ?_, scale_zero hnan hinf hzero _⟩
    rw [if_pos hzero]
    rfl
  · obtain ⟨hcanonical, -, -⟩ := (unpack_eq hnan hinf).resolve_left fun h => hzero h.2
    obtain ⟨n, power, hnear, hshortest⟩ := shortest_near hcanonical
    obtain ⟨hleading, hvalue⟩ := ofGrid_value (hnear.digits_pos hcanonical) power
    rw [← hshortest] at hleading hvalue
    refine ⟨(Decimal.shortest (Parts.ofFloat x)).pieces layout, proper_pieces layout hleading,
      fun hlayout => fraction_pieces layout hlayout hleading, ?_,
      scale_near hnan hinf hzero ?_⟩
    · rw [if_neg hzero, chars_pieces layout hleading]
    · have hpieces := value_pieces layout hleading
      rw [hvalue] at hpieces
      show Near _ _ ((Decimal.shortest (Parts.ofFloat x)).pieces layout).value
      rw [hpieces]
      exact hnear

end PipelineCompiler.Number
