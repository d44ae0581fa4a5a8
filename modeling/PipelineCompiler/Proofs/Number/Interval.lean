import Mathlib
import PipelineCompiler.Proofs.Number.Scientific

namespace PipelineCompiler.Number

/-!
# Decimals in the interval of a float

The interval of a float holds exactly the numbers that are rounded to it, and a grid with seventeen
digits is fine enough to meet it.

* `holds_iff` — what lies in the interval is near the float;
* `onGrid?_holds` — what a grid gives lies in the interval;
* `exists_onGrid?` — a grid finer than the interval meets it;
* `magnitude_le` — the power of ten of the first digit is not above the value;
* `shortest_near` — the shortest decimal is near the float.
-/

/-! ### What the interval holds -/

/-- The common denominator of an interval and its scale make the exponent of the parts. -/
theorem scale_denominator (e : ℤ) :
    (2 : ℚ) ^ (e - 2).toNat = 2 ^ e / 4 * 2 ^ (2 - e).toNat := by
  have hpower : (2 : ℚ) ^ e / 4 = 2 ^ (e - 2) := by
    rw [zpow_sub₀ two_ne_zero]
    norm_num
  have hsplit : ((e - 2).toNat : ℤ) = e - 2 + (2 - e).toNat := by omega
  rw [hpower, ← zpow_natCast, hsplit, zpow_add₀ two_ne_zero, zpow_natCast]

/-- A power of ten is the quotient of its two parts. -/
theorem ten_zpow_split (p : ℤ) : (10 : ℚ) ^ p * 10 ^ (-p).toNat = 10 ^ p.toNat := by
  have hten : (10 : ℚ) ≠ 0 := by norm_num
  have hsplit : p + (-p).toNat = p.toNat := by omega
  rw [← zpow_natCast, ← zpow_add₀ hten, hsplit, zpow_natCast]

variable {p : Parts}

/-- How far the interval reaches below the value, in quarters. -/
def quartersBelow (p : Parts) : Nat :=
  if p.mantissa = 2 ^ 52 ∧ p.exponent > -1074 then 1 else 2

/-- The quarters of the gap below. -/
theorem quartersBelow_eq (p : Parts) :
    (quartersBelow p : ℚ) = 4 * gapBelow p.mantissa p.exponent := by
  unfold quartersBelow gapBelow
  by_cases h : p.mantissa = 2 ^ 52 ∧ -1074 < p.exponent
  · rw [if_pos h, if_pos h]
    norm_num
  · rw [if_neg h, if_neg h]
    norm_num

/-- The low end of the interval. -/
theorem low_eq (h : 0 < p.mantissa) :
    ((Interval.ofParts p).low : ℚ) = (p.mantissa - gapBelow p.mantissa p.exponent) *
      2 ^ p.exponent * (Interval.ofParts p).denominator := by
  have hle : quartersBelow p ≤ 4 * p.mantissa := by
    unfold quartersBelow
    split
    · omega
    · omega
  show ((((4 * p.mantissa - quartersBelow p) * 2 ^ (p.exponent - 2).toNat : Nat)) : ℚ) =
    _ * ((2 ^ (2 - p.exponent).toNat : Nat) : ℚ)
  push_cast [hle]
  rw [quartersBelow_eq, scale_denominator]
  ring

/-- The high end of the interval. -/
theorem high_eq (p : Parts) :
    ((Interval.ofParts p).high : ℚ) =
      (p.mantissa + 1 / 2) * 2 ^ p.exponent * (Interval.ofParts p).denominator := by
  show ((((4 * p.mantissa + 2) * 2 ^ (p.exponent - 2).toNat : Nat)) : ℚ) =
    _ * ((2 ^ (2 - p.exponent).toNat : Nat) : ℚ)
  push_cast
  rw [scale_denominator]
  ring

/-- The value of the interval. -/
theorem value_eq (p : Parts) :
    ((Interval.ofParts p).value : ℚ) =
      p.mantissa * 2 ^ p.exponent * (Interval.ofParts p).denominator := by
  show (((4 * p.mantissa * 2 ^ (p.exponent - 2).toNat : Nat)) : ℚ) =
    _ * ((2 ^ (2 - p.exponent).toNat : Nat) : ℚ)
  push_cast
  rw [scale_denominator]
  ring

/-- The denominator of an interval. -/
theorem denominator_pos (p : Parts) : 0 < (Interval.ofParts p).denominator :=
  Nat.two_pow_pos _

/-- The ends belong to the numbers near a float with an even mantissa. -/
theorem near_of_even {n : Nat} {e : ℤ} {q : ℚ} (h : n % 2 = 0) :
    Near n e q ↔ (n - gapBelow n e) * 2 ^ e ≤ q ∧ q ≤ (n + 1 / 2) * 2 ^ e :=
  ⟨fun hq => ⟨hq.low, hq.high⟩, fun hq => ⟨hq.1, hq.2, fun _ => h⟩⟩

/-- The ends do not belong to the numbers near a float with an odd mantissa. -/
theorem near_of_odd {n : Nat} {e : ℤ} {q : ℚ} (h : n % 2 ≠ 0) :
    Near n e q ↔ (n - gapBelow n e) * 2 ^ e < q ∧ q < (n + 1 / 2) * 2 ^ e := by
  constructor
  · intro hq
    refine ⟨lt_of_le_of_ne hq.low fun heq => h (hq.tie (.inl heq.symm)),
      lt_of_le_of_ne hq.high fun heq => h (hq.tie (.inr heq))⟩
  · intro hq
    refine ⟨hq.1.le, hq.2.le, ?_⟩
    rintro (heq | heq)
    · exact absurd heq hq.1.ne'
    · exact absurd heq hq.2.ne

/-- **The interval of a float holds the decimals near it.** -/
theorem holds_iff (hpos : 0 < p.mantissa) (digits : Nat) (power : ℤ) :
    (Interval.ofParts p).holds digits power = true ↔
      Near p.mantissa p.exponent (digits * 10 ^ power) := by
  have hdenominator : (0 : ℚ) < (Interval.ofParts p).denominator := by
    exact_mod_cast denominator_pos p
  have hunit : (0 : ℚ) < (Interval.ofParts p).denominator * 10 ^ (-power).toNat := by positivity
  -- the three sides of the comparison over their common denominator
  have hpoint : ((digits * 10 ^ power.toNat * (Interval.ofParts p).denominator : Nat) : ℚ) =
      digits * 10 ^ power * ((Interval.ofParts p).denominator * 10 ^ (-power).toNat) := by
    push_cast
    rw [← ten_zpow_split]
    ring
  have hlow : (((Interval.ofParts p).low * 10 ^ (-power).toNat : Nat) : ℚ) =
      (p.mantissa - gapBelow p.mantissa p.exponent) * 2 ^ p.exponent *
        ((Interval.ofParts p).denominator * 10 ^ (-power).toNat) := by
    push_cast
    rw [low_eq hpos]
    ring
  have hhigh : (((Interval.ofParts p).high * 10 ^ (-power).toNat : Nat) : ℚ) =
      (p.mantissa + 1 / 2) * 2 ^ p.exponent *
        ((Interval.ofParts p).denominator * 10 ^ (-power).toNat) := by
    push_cast
    rw [high_eq]
    ring
  have hclosed : (Interval.ofParts p).closed = (p.mantissa % 2 == 0) := rfl
  rw [Interval.holds, hclosed]
  simp only [Nat.pow_eq]
  by_cases heven : p.mantissa % 2 = 0
  · rw [if_pos (beq_iff_eq.mpr heven), Bool.and_eq_true, decide_eq_true_eq, decide_eq_true_eq,
      near_of_even heven, ← @Nat.cast_le ℚ, ← @Nat.cast_le ℚ, hlow, hhigh, hpoint,
      mul_le_mul_iff_left₀ hunit, mul_le_mul_iff_left₀ hunit]
  · rw [if_neg (by simpa using heven), Bool.and_eq_true, decide_eq_true_eq, decide_eq_true_eq,
      near_of_odd heven, ← @Nat.cast_lt ℚ, ← @Nat.cast_lt ℚ, hlow, hhigh, hpoint,
      mul_lt_mul_iff_left₀ hunit, mul_lt_mul_iff_left₀ hunit]

/-! ### What a grid gives -/

/-- A point that a grid gives lies in the interval. -/
theorem onGrid?_holds {i : Interval} {power : ℤ} {digits : Nat}
    (h : i.onGrid? power = some digits) : i.holds digits power = true := by
  rw [Interval.onGrid?] at h
  dsimp only at h
  split at h
  · cases h
  · next hbelow _ =>
    obtain rfl := Option.some.inj h
    exact hbelow
  · next _ habove =>
    obtain rfl := Option.some.inj h
    exact habove
  · next hbelow habove =>
    -- Both neighbours lie in the interval: whichever is closer, or even, is taken.
    obtain rfl := Option.some.inj h
    split
    · exact hbelow
    · split
      · exact habove
      · split
        · exact hbelow
        · exact habove

/-- A grid that meets the interval next to the value gives a point. -/
theorem onGrid?_isSome {i : Interval} {power : ℤ} {below : Nat}
    (hbelow : below = i.value * 10 ^ (-power).toNat / (10 ^ power.toNat * i.denominator))
    (h : i.holds below power = true ∨ i.holds (below + 1) power = true) :
    ∃ digits, i.onGrid? power = some digits := by
  subst hbelow
  rw [Interval.onGrid?]
  simp only [Nat.pow_eq]
  split
  · next hno hno' =>
    rcases h with h | h
    · rw [h] at hno
      cases hno
    · rw [h] at hno'
      cases hno'
  · exact ⟨_, rfl⟩
  · exact ⟨_, rfl⟩
  · exact ⟨_, rfl⟩

/-- The numbers strictly inside the interval are near the float. -/
theorem near_of_lt {n : Nat} {e : ℤ} {q : ℚ} (hlow : (n - gapBelow n e) * 2 ^ e < q)
    (hhigh : q < (n + 1 / 2) * 2 ^ e) : Near n e q := by
  refine ⟨hlow.le, hhigh.le, ?_⟩
  rintro (heq | heq)
  · exact absurd heq hlow.ne'
  · exact absurd heq hhigh.ne

/-- **A grid that is finer than the interval meets it.** -/
theorem exists_onGrid? (hpos : 0 < p.mantissa) {power : ℤ}
    (hfine : (10 : ℚ) ^ power < (gapBelow p.mantissa p.exponent + 1 / 2) * 2 ^ p.exponent) :
    ∃ digits, (Interval.ofParts p).onGrid? power = some digits := by
  obtain ⟨below, hbelow⟩ : ∃ below, below = (Interval.ofParts p).value * 10 ^ (-power).toNat /
    (10 ^ power.toNat * (Interval.ofParts p).denominator) := ⟨_, rfl⟩
  have hdenominator := denominator_pos p
  have hdenominator' : (0 : ℚ) < (Interval.ofParts p).denominator := by
    exact_mod_cast hdenominator
  have hstep : 0 < 10 ^ power.toNat * (Interval.ofParts p).denominator := by positivity
  have hunit : (0 : ℚ) < (Interval.ofParts p).denominator * 10 ^ (-power).toNat := by positivity
  have hvalue : (((Interval.ofParts p).value * 10 ^ (-power).toNat : Nat) : ℚ) =
      p.mantissa * 2 ^ p.exponent *
        ((Interval.ofParts p).denominator * 10 ^ (-power).toNat) := by
    push_cast
    rw [value_eq]
    ring
  have hgrid : ∀ n : Nat,
    ((n * (10 ^ power.toNat * (Interval.ofParts p).denominator) : Nat) : ℚ) =
      n * 10 ^ power * ((Interval.ofParts p).denominator * 10 ^ (-power).toNat) := by
    intro n
    push_cast
    rw [← ten_zpow_split]
    ring
  have hnotAbove : (below : ℚ) * 10 ^ power ≤ p.mantissa * 2 ^ p.exponent := by
    have hle := Nat.div_mul_le_self ((Interval.ofParts p).value * 10 ^ (-power).toNat)
      (10 ^ power.toNat * (Interval.ofParts p).denominator)
    rw [← hbelow, ← @Nat.cast_le ℚ, hgrid, hvalue, mul_le_mul_iff_left₀ hunit] at hle
    exact hle
  have hbeyond : (p.mantissa : ℚ) * 2 ^ p.exponent < (below + 1 : Nat) * 10 ^ power := by
    have hlt := Nat.lt_mul_of_div_lt (Nat.lt_succ_self _) hstep
      (a := (Interval.ofParts p).value * 10 ^ (-power).toNat)
    rw [← hbelow, ← @Nat.cast_lt ℚ, hgrid, hvalue, mul_lt_mul_iff_left₀ hunit] at hlt
    exact hlt
  have hgap := gapBelow_le p.mantissa p.exponent
  have hplace : (0 : ℚ) < 2 ^ p.exponent := by positivity
  apply onGrid?_isSome hbelow
  rw [holds_iff hpos, holds_iff hpos]
  push_cast at hbeyond ⊢
  -- The multiple of the power below the float may be too far from it; then the one above is near.
  by_cases hnear : (p.mantissa - gapBelow p.mantissa p.exponent) * 2 ^ p.exponent <
      below * 10 ^ power
  · left
    exact near_of_lt hnear (by nlinarith)
  · right
    exact near_of_lt (by nlinarith) (by nlinarith)

/-! ### The search -/

/-- The value of an interval is at least the power of ten of its first digit. -/
theorem magnitude_le {i : Interval} (hvalue : 0 < i.value) :
    (10 : ℚ) ^ i.magnitude * i.denominator ≤ i.value := by
  obtain ⟨guess, hguess⟩ : ∃ guess : ℤ,
    guess = digitCount i.value - digitCount i.denominator :=
    ⟨_, rfl⟩
  have hmagnitude : i.magnitude =
      if i.denominator * 10 ^ guess.toNat ≤ i.value * 10 ^ (-guess).toNat then guess
      else guess - 1 := by
    rw [hguess]
    rfl
  rw [hmagnitude]
  -- The guess, made from the counts of digits, is the magnitude or one too high.
  split
  · next hreached =>
    have hscale : (0 : ℚ) < 10 ^ (-guess).toNat := by positivity
    rw [← @Nat.cast_le ℚ] at hreached
    push_cast at hreached
    rw [← ten_zpow_split, ← mul_assoc, mul_le_mul_iff_left₀ hscale] at hreached
    rw [mul_comm]
    exact hreached
  · have hten : (10 : ℚ) ≠ 0 := by norm_num
    have hlow : ((10 ^ (digitCount i.value - 1) : Nat) : ℚ) ≤ i.value := by
      exact_mod_cast (toDigits_bounds hvalue).1
    have hhigh : (i.denominator : ℚ) ≤ (10 ^ digitCount i.denominator : Nat) := by
      have hle := (Nat.length_toDigits_le_iff (b := 10) (n := i.denominator) (by decide)
        Nat.length_toDigits_pos).mp (le_refl _)
      exact_mod_cast hle.le
    have hexponent : guess - 1 =
        ((digitCount i.value - 1 : Nat) : ℤ) - (digitCount i.denominator : Nat) := by
      have : 0 < digitCount i.value := Nat.length_toDigits_pos
      omega
    push_cast at hlow hhigh
    rw [hexponent, zpow_sub₀ hten, zpow_natCast, zpow_natCast]
    calc (10 : ℚ) ^ (digitCount i.value - 1) / 10 ^ digitCount i.denominator * i.denominator
        ≤ 10 ^ (digitCount i.value - 1) / 10 ^ digitCount i.denominator *
            10 ^ digitCount i.denominator := by gcongr
      _ = 10 ^ (digitCount i.value - 1) := div_mul_cancel₀ _ (by positivity)
      _ ≤ i.value := hlow

/-- A search whose last grid meets the interval finds a decimal in it. -/
theorem search_holds {i : Interval} {magnitude : ℤ} {tries count : Nat}
    (h : ∃ digits, i.onGrid? (magnitude - (tries + count : Nat) + 1) = some digits) :
    ∃ digits power, i.holds digits power = true ∧
      Decimal.search i magnitude (tries + 1) count = .ofGrid digits power := by
  -- By induction on the grids that are left; a coarser grid that meets the interval ends the search
  -- before.
  induction tries generalizing count with
  | zero =>
    obtain ⟨digits, hdigits⟩ := h
    rw [Nat.zero_add] at hdigits
    refine ⟨digits, _, onGrid?_holds hdigits, ?_⟩
    rw [Decimal.search, hdigits]
  | succ tries ih =>
    rw [Decimal.search]
    cases hgrid : i.onGrid? (magnitude - count + 1) with
    | some digits => exact ⟨digits, _, onGrid?_holds hgrid, rfl⟩
    | none =>
      apply ih
      have hcount : tries + (count + 1) = tries + 1 + count := by omega
      rw [hcount]
      exact h

/-- **Seventeen digits are enough**: the shortest decimal of a float is near it. -/
theorem shortest_near (h : Canonical p.mantissa p.exponent) :
    ∃ (digits : Nat) (power : ℤ), Near p.mantissa p.exponent (digits * 10 ^ power) ∧
      Decimal.shortest p = .ofGrid digits power := by
  have hvalue : 0 < (Interval.ofParts p).value := by
    show 0 < 4 * p.mantissa * 2 ^ (p.exponent - 2).toNat
    have := h.pos
    positivity
  have hmagnitude := magnitude_le hvalue
  have hdenominator : (0 : ℚ) < (Interval.ofParts p).denominator := by
    exact_mod_cast denominator_pos p
  rw [value_eq, mul_le_mul_iff_left₀ hdenominator] at hmagnitude
  have hplace : (0 : ℚ) < 2 ^ p.exponent := by positivity
  have hfine : (10 : ℚ) ^ ((Interval.ofParts p).magnitude - (16 + 1 : Nat) + 1) <
      (gapBelow p.mantissa p.exponent + 1 / 2) * 2 ^ p.exponent := by
    have hten : (10 : ℚ) ≠ 0 := by norm_num
    have hexponent : (Interval.ofParts p).magnitude - (16 + 1 : Nat) + 1 =
        (Interval.ofParts p).magnitude - (16 : Nat) := by
      push_cast
      ring
    rw [hexponent, zpow_sub₀ hten, zpow_natCast, div_lt_iff₀ (by norm_num)]
    have hgap := gapBelow_le p.mantissa p.exponent
    -- there is less room below a power of two, but its mantissa is only half as large
    have hroom : (p.mantissa : ℚ) < (gapBelow p.mantissa p.exponent + 1 / 2) * 10 ^ 16 := by
      by_cases hpower : p.mantissa = 2 ^ 52
      · have hmantissa : (p.mantissa : ℚ) = 2 ^ 52 := by
          exact_mod_cast hpower
        linarith
      · have hhalf : gapBelow p.mantissa p.exponent = 1 / 2 :=
          if_neg fun hboth => hpower hboth.1
        have hbound : (p.mantissa : ℚ) < 2 ^ 53 := by
          exact_mod_cast h.bound
        rw [hhalf]
        linarith
    calc (10 : ℚ) ^ (Interval.ofParts p).magnitude ≤ p.mantissa * 2 ^ p.exponent := hmagnitude
      _ < (gapBelow p.mantissa p.exponent + 1 / 2) * 10 ^ 16 * 2 ^ p.exponent :=
        mul_lt_mul_of_pos_right hroom hplace
      _ = (gapBelow p.mantissa p.exponent + 1 / 2) * 2 ^ p.exponent * 10 ^ 16 := by ring
  obtain ⟨digits, power, hholds, hsearch⟩ :=
    search_holds (exists_onGrid? h.pos hfine)
  exact ⟨digits, power, (holds_iff h.pos digits power).mp hholds, hsearch⟩

end PipelineCompiler.Number
