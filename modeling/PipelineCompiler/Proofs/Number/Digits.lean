import Mathlib.Algebra.Order.Ring.Nat
import PipelineCompiler.Number.Digits
import PipelineCompiler.Number.Numeral

namespace PipelineCompiler.Number

/-!
# Digits

* `ofDigits_lt` — what some digits of a base stand for is less than the power with as many;
* `isTooLong_ofDigits`, `isTooLong_integer?` — a whole number that is read has few enough digits
  to be written.
-/

/-- The value of digits behind others. -/
theorem foldl_digits_lt {base : Nat} {digits : List Nat} (h : ∀ d ∈ digits, d < base)
    (sum : Nat) :
    digits.foldl (fun sum digit => base * sum + digit) sum < (sum + 1) * base ^ digits.length := by
  induction digits generalizing sum with
  | nil =>
    rw [List.foldl_nil, List.length_nil, Nat.pow_zero]
    omega
  | cons d rest ih =>
    obtain ⟨hd, hrest⟩ := List.forall_mem_cons.mp h
    calc (d :: rest).foldl (fun sum digit => base * sum + digit) sum
        < (base * sum + d + 1) * base ^ rest.length := ih hrest (base * sum + d)
      _ ≤ ((sum + 1) * base) * base ^ rest.length :=
        Nat.mul_le_mul_right _ (by rw [Nat.add_mul, Nat.one_mul, Nat.mul_comm sum]; omega)
      _ = (sum + 1) * base ^ (d :: rest).length := by
        rw [Nat.mul_assoc, List.length_cons, Nat.pow_succ']

/-- Digits of a base stand for less than the power with as many. -/
theorem ofDigits_lt {base : Nat} {digits : List Nat} (h : ∀ d ∈ digits, d < base) :
    ofDigits base digits < base ^ digits.length := by
  have hlt := foldl_digits_lt h 0
  rwa [Nat.zero_add, Nat.one_mul] at hlt

/-- A decimal digit has a value below ten. -/
theorem baseDigit?_lt {c : Char} (hc : c.isDigit = true) {d : Nat} (h : baseDigit? c = some d) :
    d < 10 := by
  have hc' := Char.isDigit_iff_toNat.mp hc
  have hrange : '0' ≤ c ∧ c ≤ '9' := ⟨Char.le_def.mpr hc'.1, Char.le_def.mpr hc'.2⟩
  rw [baseDigit?, if_pos hrange] at h
  obtain rfl := Option.some.inj h
  have hnine : '9'.toNat = 57 := rfl
  have hzero : '0'.toNat = 48 := rfl
  omega

/-- A number with few enough digits is not too long. -/
theorem isTooLong_digits {digits : List Nat} (h : ∀ d ∈ digits, d < 10)
    (hlength : digits.length ≤ digitLimit) (negative : Bool) :
    isTooLong (if negative then -(ofDigits 10 digits : Int) else ofDigits 10 digits) = false := by
  have hlt := ofDigits_lt h
  have hpow : 10 ^ digits.length ≤ 10 ^ digitLimit := Nat.pow_le_pow_right (by decide) hlength
  have habs : (if negative then -(ofDigits 10 digits : Int) else ofDigits 10 digits).natAbs =
      ofDigits 10 digits := by
    cases negative <;> simp
  rw [isTooLong, habs]
  -- the power is not computed
  generalize digitLimit = limit at hpow
  exact decide_eq_false (Nat.not_le.mpr (Nat.lt_of_lt_of_le hlt hpow))

/-- A number that is read from few enough digits is not too long. -/
theorem isTooLong_ofDigits {cs : List Char} (hcs : ∀ c ∈ cs, c.isDigit = true)
    (hlength : cs.length ≤ digitLimit) (negative : Bool) :
    isTooLong (if negative then -(ofDigits 10 (cs.filterMap baseDigit?) : Int)
      else ofDigits 10 (cs.filterMap baseDigit?)) = false := by
  refine isTooLong_digits (fun d hd => ?_)
    (Nat.le_trans (List.length_filterMap_le _ _) hlength) negative
  obtain ⟨c, hc, hvalue⟩ := List.mem_filterMap.mp hd
  exact baseDigit?_lt (hcs c hc) hvalue

/-- The digits of a base are less than the base. -/
theorem lt_of_digits? {base : Nat} {bare : Bool} {cs : List Char} {digits : List Nat}
    (h : digits? base bare cs = some digits) : ∀ d ∈ digits, d < base := by
  -- By induction on the characters; an underscore between two digits stands for none.
  induction cs generalizing bare digits with
  | nil =>
    cases bare with
    | true =>
      obtain rfl : digits = [] := (Option.some.inj h).symm
      exact fun _ hd => nomatch hd
    | false => simp [digits?] at h
  | cons c rest ih =>
    unfold digits? at h
    split at h
    next heq => cases heq
    next heq =>
      obtain ⟨-, rfl⟩ := List.cons.inj heq
      split at h
      · exact ih h
      · cases h
    next heq =>
      obtain ⟨rfl, rfl⟩ := List.cons.inj heq
      split at h
      next value hvalue =>
        split at h
        next hlt =>
          obtain ⟨others, hothers, rfl⟩ := Option.map_eq_some_iff.mp h
          exact List.forall_mem_cons.mpr ⟨hlt, ih hothers⟩
        next => cases h
      next => cases h

/-- **A whole number that is read is not too long.** -/
theorem isTooLong_integer? {cs : List Char} {i : Int} (h : integer? 10 cs = some i) :
    isTooLong i = false := by
  unfold integer? at h
  generalize sign ((Text.trim isOuterBlank cs).map asciiDigit) = signed at h
  dsimp only at h
  generalize unmarked 10 signed.2 = body at h
  obtain ⟨digits, hdigits, h⟩ := Option.bind_eq_some_iff.mp h
  split at h
  next => cases h
  next hlong =>
    obtain rfl := Option.some.inj h
    exact isTooLong_digits (lt_of_digits? hdigits) (Nat.not_lt.mp fun hlt => hlong ⟨rfl, hlt⟩) _

end PipelineCompiler.Number
