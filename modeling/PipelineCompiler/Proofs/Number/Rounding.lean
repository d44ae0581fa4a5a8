import Mathlib
import PipelineCompiler.Number.Shortest

namespace PipelineCompiler.Number

open Float.Model Float.Model.UnpackedFloat

/-!
# Which numbers are rounded to a float

The arithmetic of floats works on whole mantissas with two residual bits.  What it returns is stated
here in rational numbers: the number that a mantissa stands for, and the numbers near a float.

* `Stands` — what a mantissa with its two bits says about a number;
* `Stands.rounded` — the mantissa is rounded to the nearest whole number, ties to the even one;
* `Near` — the numbers that are rounded to a float;
* `Denotes.round` — numbers near a float are rounded to it;
* `mul_finite`, `div_finite` — products and quotients.
-/

/-! ### Mantissas with residual bits -/

/-- A mantissa with its two residual bits stands for a number between it and its upper neighbour.
    The round bit says that the number lies in the upper half, and the sticky bit that it is not at
    the lower end of its half. -/
structure Stands (m : ExtendedMantissa) (t : ℚ) : Prop where
  low : m.mantissa ≤ t
  high : t < m.mantissa + 1
  round : m.roundBit = true ↔ (m.mantissa : ℚ) + 1 / 2 ≤ t
  sticky : m.stickyBit = false ↔ t = m.mantissa ∨ t = m.mantissa + 1 / 2

variable {m : ExtendedMantissa} {t q : ℚ}

/-- A mantissa whose two bits are not set is exact. -/
theorem Stands.exact_iff (h : Stands m t) :
    (m.roundBit || m.stickyBit) = false ↔ t = m.mantissa := by
  rw [Bool.or_eq_false_iff, h.sticky, ← Bool.not_eq_true, h.round]
  constructor
  · rintro ⟨hlow, heq | heq⟩
    · exact heq
    · linarith
  · intro heq
    exact ⟨by linarith, .inl heq⟩

/-- Shifting a mantissa by one bit halves the number: the bit that is dropped becomes the round bit,
    and the others are collected in the sticky bit. -/
theorem Stands.half (h : Stands m t) : Stands m.shiftRightOne (t / 2) := by
  have hexact := h.exact_iff
  obtain ⟨hlow, hhigh, -, -⟩ := h
  obtain ⟨n, roundBit, stickyBit⟩ := m
  dsimp only at hlow hhigh hexact
  -- The bit that is shifted out is even or odd.
  rcases Nat.even_or_odd' n with ⟨k, rfl | rfl⟩
  · have hhalf : 2 * k / 2 = k := by omega
    have hbit : (2 * k % 2 != 0) = false := by simp
    push_cast at hlow hhigh hexact
    simp only [ExtendedMantissa.shiftRightOne, hhalf, hbit]
    refine ⟨by linarith, by linarith, ?_, ?_⟩
    · simp only [Bool.false_eq_true, false_iff]
      linarith
    · rw [hexact]
      constructor
      · intro heq
        exact .inl (by linarith)
      · rintro (heq | heq)
        · linarith
        · linarith
  · have hhalf : (2 * k + 1) / 2 = k := by omega
    have hbit : ((2 * k + 1) % 2 != 0) = true := by simp
    push_cast at hlow hhigh hexact
    simp only [ExtendedMantissa.shiftRightOne, hhalf, hbit]
    refine ⟨by linarith, by linarith, ?_, ?_⟩
    · simp only [true_iff]
      linarith
    · rw [hexact]
      constructor
      · intro heq
        exact .inr (by linarith)
      · rintro (heq | heq)
        · linarith
        · linarith

/-- Shifting a mantissa divides the number by a power of two. -/
theorem Stands.shift (h : Stands m t) (count : Nat) : Stands (m >>> count) (t / 2 ^ count) := by
  induction count with
  | zero =>
    rw [pow_zero, div_one]
    exact h
  | succ count ih =>
    rw [pow_succ, ← div_div]
    exact ih.half

/-- A mantissa is rounded to the nearest whole number, and from the middle to an even one. -/
theorem Stands.rounded (h : Stands m t) :
    (m.roundedMantissa : ℚ) - 1 / 2 ≤ t ∧ t ≤ m.roundedMantissa + 1 / 2 ∧
      (t = m.roundedMantissa - 1 / 2 ∨ t = m.roundedMantissa + 1 / 2 →
        m.roundedMantissa % 2 = 0) := by
  obtain ⟨hlow, hhigh, hround, hsticky⟩ := h
  obtain ⟨n, roundBit, stickyBit⟩ := m
  dsimp only at hlow hhigh hround hsticky
  cases roundBit with
  | false =>
    -- in the lower half the mantissa stays as it is
    have hstays : ExtendedMantissa.roundedMantissa ⟨n, false, stickyBit⟩ = n := by
      cases stickyBit <;> rfl
    have hhalf : t < n + 1 / 2 := not_le.mp fun hle => Bool.false_ne_true (hround.mpr hle)
    rw [hstays]
    refine ⟨by linarith, by linarith, ?_⟩
    rintro (heq | heq)
    · linarith
    · linarith
  | true =>
    have hhalf : (n : ℚ) + 1 / 2 ≤ t := hround.mp rfl
    cases stickyBit with
    | false =>
      have htie : t = n + 1 / 2 := (hsticky.mp rfl).resolve_left fun heq => by linarith
      have heven : ExtendedMantissa.roundedMantissa ⟨n, true, false⟩ = n + n % 2 := rfl
      rw [heven]
      rcases Nat.mod_two_eq_zero_or_one n with hn | hn
      · rw [hn]
        push_cast
        exact ⟨by linarith, by linarith, fun _ => by omega⟩
      · rw [hn]
        push_cast
        exact ⟨by linarith, by linarith, fun _ => by omega⟩
    | true =>
      have hup : ExtendedMantissa.roundedMantissa ⟨n, true, true⟩ = n + 1 := rfl
      have hne : t ≠ n + 1 / 2 := fun heq => absurd (hsticky.mpr (.inr heq)) (by decide)
      have hlt : (n : ℚ) + 1 / 2 < t := lt_of_le_of_ne hhalf hne.symm
      rw [hup]
      push_cast
      refine ⟨by linarith, by linarith, ?_⟩
      rintro (heq | heq)
      · linarith
      · linarith

/-- There is one whole number that a number is rounded to. -/
theorem Stands.rounded_eq (h : Stands m t) {n : Nat} (hlow : (n : ℚ) - 1 / 2 ≤ t)
    (hhigh : t ≤ n + 1 / 2) (htie : t = n - 1 / 2 ∨ t = n + 1 / 2 → n % 2 = 0) :
    m.roundedMantissa = n := by
  obtain ⟨hlow', hhigh', htie'⟩ := h.rounded
  generalize m.roundedMantissa = r at hlow' hhigh' htie'
  have hle : r ≤ n + 1 := by
    have hcast : (r : ℚ) ≤ (n + 1 : Nat) := by
      push_cast
      linarith
    exact_mod_cast hcast
  have hge : n ≤ r + 1 := by
    have hcast : (n : ℚ) ≤ (r + 1 : Nat) := by
      push_cast
      linarith
    exact_mod_cast hcast
  by_contra hne
  -- two neighbours are equally near to the middle only, and one of them is odd
  rcases Nat.lt_or_gt_of_ne hne with hlt | hgt
  · obtain rfl : n = r + 1 := by omega
    push_cast at hlow hhigh htie
    have hmiddle : t = r + 1 / 2 := by linarith
    have hodd := htie (.inl (by linarith))
    have heven := htie' (.inr hmiddle)
    omega
  · obtain rfl : r = n + 1 := by omega
    push_cast at hlow' hhigh' htie'
    have hmiddle : t = n + 1 / 2 := by linarith
    have hodd := htie' (.inl (by linarith))
    have heven := htie (.inr hmiddle)
    omega

/-! ### The exponent at which a number is rounded -/

/-- The exponent at which a number is rounded: with it the number has a mantissa of at most
    fifty-three bits, and of as many unless the exponent is the least one. -/
structure Scale (e : ℤ) (q : ℚ) : Prop where
  least : -1074 ≤ e
  high : q < 2 ^ (e + 53)
  low : -1074 < e → 2 ^ (e + 52) ≤ q

/-- The parts of a positive float. -/
structure Canonical (n : Nat) (e : ℤ) : Prop where
  pos : 0 < n
  bound : n < 2 ^ 53
  least : -1074 ≤ e
  normal : 2 ^ 52 ≤ n ∨ e = -1074

/-- How far the numbers that are rounded to a float reach below it, in units of its last place.
    Below a power of two the floats lie closer. -/
def gapBelow (n : Nat) (e : ℤ) : ℚ := if n = 2 ^ 52 ∧ -1074 < e then 1 / 4 else 1 / 2

/-- A number lies among those that are rounded to a float, whose ends belong to an even mantissa. -/
structure Near (n : Nat) (e : ℤ) (q : ℚ) : Prop where
  low : (n - gapBelow n e) * 2 ^ e ≤ q
  high : q ≤ (n + 1 / 2) * 2 ^ e
  tie : q = (n - gapBelow n e) * 2 ^ e ∨ q = (n + 1 / 2) * 2 ^ e → n % 2 = 0

/-- The gap is at least a quarter and at most a half. -/
theorem gapBelow_le (n : Nat) (e : ℤ) : 1 / 4 ≤ gapBelow n e ∧ gapBelow n e ≤ 1 / 2 := by
  unfold gapBelow
  split
  · norm_num
  · norm_num

/-- A power of two times a number of at most as many bits. -/
theorem two_zpow_add (e : ℤ) (k : ℕ) : (2 : ℚ) ^ (e + k) = 2 ^ k * 2 ^ e := by
  rw [zpow_add₀ two_ne_zero, zpow_natCast, mul_comm]

/-- **The first rounding.**  A number near a float is rounded to its mantissa with its exponent;
    just below a power of two it is rounded up to that power. -/
theorem Near.roundedMantissa {n : Nat} {e s : ℤ} (h : Near n e q) (hn : Canonical n e)
    (hs : Scale s q) (hm : Stands m (q / 2 ^ s)) :
    s = e ∧ m.roundedMantissa = n ∨
      s + 1 = e ∧ n = 2 ^ 52 ∧ m.roundedMantissa = 2 ^ 53 := by
  have hunit : (0 : ℚ) < 2 ^ e := by positivity
  have hbound : (n : ℚ) + 1 ≤ 2 ^ 53 := by exact_mod_cast hn.bound
  have hgap := gapBelow_le n e
  have hfits : s ≤ e := by
    by_contra hlt
    have hlow : (2 : ℚ) ^ (e + 53) ≤ q := by
      refine le_trans (zpow_le_zpow_right₀ one_le_two ?_) (hs.low ?_)
      · omega
      · have := hn.least
        omega
    rw [show (53 : ℤ) = (53 : ℕ) from rfl, two_zpow_add] at hlow
    nlinarith [h.high]
  -- The number has the exponent of the float, or, if it lies below a power of two, the next smaller
  -- one.
  rcases eq_or_lt_of_le hfits with rfl | hlt
  · left
    refine ⟨rfl, hm.rounded_eq ?_ ?_ ?_⟩
    · rw [le_div_iff₀ hunit]
      nlinarith [h.low]
    · rw [div_le_iff₀ hunit]
      exact h.high
    · rw [div_eq_iff hunit.ne', div_eq_iff hunit.ne']
      rintro (heq | heq)
      · apply h.tie
        left
        have hle := h.low
        have hhalf : gapBelow n s = 1 / 2 := by
          apply le_antisymm hgap.2
          by_contra hquarter
          nlinarith
        rw [heq, hhalf]
      · exact h.tie (.inr heq)
  · right
    have hleast : -1074 < e := lt_of_le_of_lt hs.least hlt
    have hnormal : 2 ^ 52 ≤ n := hn.normal.resolve_right hleast.ne'
    have hhigh : q < 2 ^ 52 * 2 ^ e := by
      have hlt' : q < 2 ^ (e + (52 : ℕ)) :=
        lt_of_lt_of_le hs.high (zpow_le_zpow_right₀ one_le_two (by push_cast; omega))
      rwa [two_zpow_add] at hlt'
    have hpower : n = 2 ^ 52 := by
      by_contra hne
      have hmore : (2 : ℚ) ^ 52 + 1 ≤ n := by
        have : 2 ^ 52 + 1 ≤ n := by omega
        exact_mod_cast this
      nlinarith [h.low]
    have hquarter : gapBelow n e = 1 / 4 := if_pos ⟨hpower, hleast⟩
    have hlow := h.low
    rw [hquarter, hpower] at hlow
    push_cast at hlow
    have hnext : s + 1 = e := by
      by_contra hne
      have hlt' : q < 2 ^ (e + (51 : ℕ)) :=
        lt_of_lt_of_le hs.high (zpow_le_zpow_right₀ one_le_two (by push_cast; omega))
      rw [two_zpow_add] at hlt'
      nlinarith
    have hdouble : (2 : ℚ) ^ e = 2 * 2 ^ s := by
      rw [← hnext, zpow_add_one₀ two_ne_zero, mul_comm]
    have hunit' : (0 : ℚ) < 2 ^ s := by positivity
    rw [hdouble] at hlow hhigh
    refine ⟨hnext, hpower, hm.rounded_eq ?_ ?_ fun _ => by norm_num⟩
    · rw [le_div_iff₀ hunit']
      push_cast
      nlinarith
    · rw [div_le_iff₀ hunit']
      push_cast
      nlinarith

/-! ### Rounding -/

/-- A mantissa with an exponent and an accuracy stands for a number. -/
def Denotes (n : Nat) (e : ℤ) (a : Accuracy) (q : ℚ) : Prop :=
  Stands (.ofMantissaAndAccuracy n a) (q / 2 ^ e)

/-- The exponent that a mantissa is shifted to. -/
theorem targetExponent_eq (n : Nat) (e : ℤ) :
    Format.binary64.targetExponent (totalExponent n e) = max (n.log2 + e - 52) (-1074) := by
  simp only [Format.targetExponent, totalExponent, Format.mantissaBits, Format.minExponent]
  norm_num
  omega

/-- The mantissa with any accuracy. -/
theorem mantissa_ofMantissaAndAccuracy (n : Nat) (a : Accuracy) :
    (ExtendedMantissa.ofMantissaAndAccuracy n a).mantissa = n := by
  rcases a with _ | _ | _ | _ <;> rfl

/-- The exponent that a mantissa is shifted to is the one at which its number is rounded, unless it
    is smaller than the given one. -/
theorem Denotes.scale {n : Nat} {e : ℤ} {a : Accuracy} (h : Denotes n e a q)
    (he : e ≤ Format.binary64.targetExponent (totalExponent n e)) :
    Scale (Format.binary64.targetExponent (totalExponent n e)) q := by
  have hlow := h.low
  have hhigh := h.high
  have hunit : (0 : ℚ) < 2 ^ e := by positivity
  rw [mantissa_ofMantissaAndAccuracy, le_div_iff₀ hunit] at hlow
  rw [mantissa_ofMantissaAndAccuracy, div_lt_iff₀ hunit] at hhigh
  rw [targetExponent_eq] at he ⊢
  refine ⟨le_max_right _ _, ?_, fun hleast => ?_⟩
  -- The mantissa has as many bits as its logarithm says, which bounds the number on both sides.
  · have hbits : (n : ℚ) + 1 ≤ 2 ^ (n.log2 + 1) := by
      have := Nat.lt_log2_self (n := n)
      exact_mod_cast this
    calc q < (n + 1) * 2 ^ e := hhigh
      _ ≤ 2 ^ (n.log2 + 1) * 2 ^ e := by gcongr
      _ = 2 ^ (e + (n.log2 + 1 : ℕ)) := (two_zpow_add e _).symm
      _ ≤ 2 ^ (max (n.log2 + e - 52) (-1074) + 53) :=
        zpow_le_zpow_right₀ one_le_two (by push_cast; omega)
  · have hpos : n ≠ 0 := by
      rintro rfl
      simp at he hleast
      omega
    have hbits : (2 : ℚ) ^ n.log2 ≤ n := by
      exact_mod_cast Nat.log2_self_le hpos
    calc (2 : ℚ) ^ (max (n.log2 + e - 52) (-1074) + 52)
        ≤ 2 ^ (e + n.log2) := zpow_le_zpow_right₀ one_le_two (by omega)
      _ = 2 ^ n.log2 * 2 ^ e := two_zpow_add e _
      _ ≤ n * 2 ^ e := by gcongr
      _ ≤ q := hlow

/-- A mantissa that is shifted to an exponent still stands for the number. -/
theorem Denotes.shift {n : Nat} {e target : ℤ} {a : Accuracy} (h : Denotes n e a q)
    (he : e ≤ target) :
    (shiftToExponent n e a target).2 = target ∧
      Stands (shiftToExponent n e a target).1 (q / 2 ^ target) := by
  have hexponent : e + ((target - e).toNat : ℤ) = target := by omega
  refine ⟨hexponent, ?_⟩
  have hshift := Stands.shift h (target - e).toNat
  rw [div_div, ← zpow_natCast, ← zpow_add₀ two_ne_zero, hexponent] at hshift
  exact hshift

/-- An exact mantissa of few enough bits is left alone. -/
theorem shiftToTargetExponent_canonical {n : Nat} {e : ℤ} (h : Canonical n e) :
    shiftToTargetExponent .binary64 n e .exact = (⟨n, false, false⟩, e) := by
  have hbits : n.log2 ≤ 52 := Nat.lt_succ_iff.mp ((Nat.log2_lt h.pos.ne').mpr h.bound)
  have hleast := h.least
  have hstay : (Format.binary64.targetExponent (totalExponent n e) - e).toNat = 0 := by
    rw [targetExponent_eq]
    omega
  rw [shiftToTargetExponent, shiftToExponent, hstay]
  simp only [Nat.cast_zero, add_zero]
  rfl

/-- A mantissa that was rounded up to one bit too many is shifted by one bit. -/
theorem shiftToTargetExponent_carry {e : ℤ} (h : -1074 ≤ e) :
    shiftToTargetExponent .binary64 (2 ^ 53) e .exact = (⟨2 ^ 52, false, false⟩, e + 1) := by
  have hbits : (2 ^ 53).log2 = 53 := Nat.log2_two_pow
  have hstep : (Format.binary64.targetExponent (totalExponent (2 ^ 53) e) - e).toNat = 1 := by
    rw [targetExponent_eq, hbits]
    omega
  rw [shiftToTargetExponent, shiftToExponent, hstep]
  rfl

/-- **Numbers near a float are rounded to it.** -/
theorem Denotes.round {n k : Nat} {e s : ℤ} {a : Accuracy} (h : Denotes n e a q)
    (he : e ≤ Format.binary64.targetExponent (totalExponent n e)) (hk : Canonical k s)
    (hq : Near k s q) (sign : Sign) :
    roundWithAccuracy .binary64 sign n e a = .finite sign k s hk.pos := by
  have hscale := h.scale he
  obtain ⟨hexponent, hstands⟩ := h.shift he
  rw [roundWithAccuracy, shiftToTargetExponent]
  generalize hfirst : shiftToExponent n e a
    (Format.binary64.targetExponent (totalExponent n e)) = first at hexponent hstands
  obtain ⟨em, e'⟩ := first
  dsimp only at hexponent hstands ⊢
  subst hexponent
  rcases hq.roundedMantissa hk hscale hstands with ⟨rfl, hm⟩ | ⟨rfl, rfl, hm⟩
  · rw [hm, shiftToTargetExponent_canonical hk]
    exact dif_neg hk.pos.ne'
  · rw [hm, shiftToTargetExponent_carry hscale.least]
    exact dif_neg hk.pos.ne'

/-! ### Products and quotients -/

/-- A mantissa stands for itself. -/
theorem stands_exact (n : Nat) : Stands (.ofMantissaAndAccuracy n .exact) n where
  low := le_refl _
  high := lt_add_one _
  round := by
    simp [ExtendedMantissa.ofMantissaAndAccuracy]
  sticky := iff_of_true rfl (.inl rfl)

/-- A mantissa with an exponent stands for the number that it is. -/
theorem denotes_exact (n : Nat) (e : ℤ) : Denotes n e .exact (n * 2 ^ e) := by
  have hunit : (2 : ℚ) ^ e ≠ 0 := by positivity
  rw [Denotes, mul_div_assoc, div_self hunit, mul_one]
  exact stands_exact n

/-- **Products near a float are rounded to it**, if the factors have bits enough. -/
theorem mul_finite {n₁ n₂ k : Nat} {e₁ e₂ s : ℤ} (h₁ : 0 < n₁) (h₂ : 0 < n₂)
    (hbits : e₁ + e₂ ≤ (n₁ * n₂).log2 + (e₁ + e₂) - 52) (hk : Canonical k s)
    (hq : Near k s ((n₁ * 2 ^ e₁) * (n₂ * 2 ^ e₂))) :
    mul .binary64 (.finite .positive n₁ e₁ h₁) (.finite .positive n₂ e₂ h₂) =
      .finite .positive k s hk.pos := by
  have hdenotes : Denotes (n₁ * n₂) (e₁ + e₂) .exact
    ((n₁ * 2 ^ e₁) * (n₂ * 2 ^ e₂)) := by
    have hvalue : ((n₁ * 2 ^ e₁) * (n₂ * 2 ^ e₂) : ℚ) =
      (n₁ * n₂ : Nat) * 2 ^ (e₁ + e₂) := by
      rw [zpow_add₀ two_ne_zero]
      push_cast
      ring
    rw [hvalue]
    exact denotes_exact _ _
  refine hdenotes.round ?_ hk hq .positive
  rw [targetExponent_eq]
  exact le_max_of_le_left hbits

/-- The two bits of an inexact mantissa. -/
theorem bits_inexact (n : Nat) (o : Ordering) :
    ((ExtendedMantissa.ofMantissaAndAccuracy n (.inexact o)).roundBit = true ↔ o ≠ .lt) ∧
      ((ExtendedMantissa.ofMantissaAndAccuracy n (.inexact o)).stickyBit = false ↔ o = .eq) := by
  cases o <;> simp [ExtendedMantissa.ofMantissaAndAccuracy]

/-- A mantissa with a fraction stands for the sum of both. -/
theorem stands_fraction (n : Nat) {r d : Nat} (h : r < d) :
    Stands (.ofMantissaAndAccuracy n (accuracyOfFraction r d)) (n + r / d) := by
  have hpos : (0 : ℚ) < d := by
    exact_mod_cast Nat.zero_lt_of_lt h
  have hless : (r : ℚ) / d < 1 := by
    rw [div_lt_one hpos]
    exact_mod_cast h
  rw [accuracyOfFraction]
  -- Without a remainder the mantissa is exact; otherwise the remainder is compared with a half.
  by_cases hr : r = 0
  · rw [if_pos hr, hr, Nat.cast_zero, zero_div, add_zero]
    exact stands_exact n
  · have hmore : (0 : ℚ) < r / d := by
      have : (0 : ℚ) < r := by exact_mod_cast Nat.pos_of_ne_zero hr
      positivity
    have hhalf : (1 : ℚ) / 2 ≤ r / d ↔ compare (2 * r) d ≠ .lt := by
      rw [Nat.compare_ne_lt, ← @Nat.cast_le ℚ, le_div_iff₀ hpos]
      push_cast
      constructor
      · intro hle
        linarith
      · intro hle
        linarith
    have hmiddle : (r : ℚ) / d = 1 / 2 ↔ compare (2 * r) d = .eq := by
      rw [Nat.compare_eq_eq, ← @Nat.cast_inj ℚ, div_eq_iff hpos.ne']
      push_cast
      constructor
      · intro heq
        linarith
      · intro heq
        linarith
    obtain ⟨hround, hsticky⟩ := bits_inexact n (compare (2 * r) d)
    rw [if_neg hr]
    constructor
    · rw [mantissa_ofMantissaAndAccuracy]
      linarith
    · rw [mantissa_ofMantissaAndAccuracy]
      linarith
    · rw [hround, ← hhalf, mantissa_ofMantissaAndAccuracy, add_le_add_iff_left]
    · rw [hsticky, ← hmiddle, mantissa_ofMantissaAndAccuracy, add_right_inj]
      constructor
      · exact .inr
      · rintro (heq | heq)
        · linarith
        · exact heq

/-- **Quotients near a float are rounded to it.** -/
theorem div_finite {n₁ n₂ k : Nat} {e₁ e₂ s : ℤ} (h₁ : 0 < n₁) (h₂ : 0 < n₂)
    (hk : Canonical k s)
    (hq : Near k s ((n₁ * 2 ^ e₁) / (n₂ * 2 ^ e₂))) :
    div .binary64 (.finite .positive n₁ e₁ h₁) (.finite .positive n₂ e₂ h₂) =
      .finite .positive k s hk.pos := by
  set d : ℤ := totalExponent n₁ e₁ - totalExponent n₂ e₂ with hd
  set e : ℤ := min (e₁ - e₂) (Format.binary64.targetExponent d) with he
  obtain ⟨count, hcount⟩ : ∃ count : Nat, e₁ - e₂ - e = count :=
    Int.eq_ofNat_of_zero_le (sub_nonneg.mpr (min_le_left _ _))
  have hshift : n₁ <<< (e₁ - e₂ - e).toNat = n₁ * 2 ^ count := by
    rw [hcount, Int.toNat_natCast, Nat.shiftLeft_eq]
  have hcore : divCore .binary64 n₁ e₁ n₂ e₂ =
      (n₁ * 2 ^ count / n₂, e, accuracyOfFraction (n₁ * 2 ^ count % n₂) n₂) := by
    rw [divCore, ← hd, ← he, hshift]
  have hdenotes :
    Denotes (n₁ * 2 ^ count / n₂) e (accuracyOfFraction (n₁ * 2 ^ count % n₂) n₂)
      ((n₁ * 2 ^ e₁) / (n₂ * 2 ^ e₂)) := by
    have hpos : (n₂ : ℚ) ≠ 0 := by
      exact_mod_cast h₂.ne'
    have hpowers : (2 : ℚ) ^ e₁ = 2 ^ count * (2 ^ e₂ * 2 ^ e) := by
      rw [← zpow_add₀ two_ne_zero, ← two_zpow_add]
      congr 1
      omega
    have hdivision : ((n₁ * 2 ^ count : Nat) : ℚ) =
        n₂ * (n₁ * 2 ^ count / n₂ : Nat) + (n₁ * 2 ^ count % n₂ : Nat) := by
      exact_mod_cast (Nat.div_add_mod (n₁ * 2 ^ count) n₂).symm
    have hvalue : ((n₁ * 2 ^ e₁) / (n₂ * 2 ^ e₂) / 2 ^ e : ℚ) =
        (n₁ * 2 ^ count / n₂ : Nat) + (n₁ * 2 ^ count % n₂ : Nat) / n₂ := by
      have hunit : (2 : ℚ) ^ e ≠ 0 := by positivity
      have hunit₂ : (2 : ℚ) ^ e₂ ≠ 0 := by positivity
      rw [hpowers]
      field_simp
      rw [← hdivision]
      push_cast
      ring
    rw [Denotes, hvalue]
    exact stands_fraction _ (Nat.mod_lt _ h₂)
  show (match divCore .binary64 n₁ e₁ n₂ e₂ with
    | (n, e, a) => roundWithAccuracy .binary64 .positive n e a) = _
  rw [hcore]
  refine hdenotes.round ?_ hk hq .positive
  -- the quotient has bits enough, unless the exponent is the least one
  rw [targetExponent_eq]
  by_cases hleast : e ≤ -1074
  · exact le_max_of_le_right hleast
  · apply le_max_of_le_left
    have hbits : 2 ^ 52 ≤ n₁ * 2 ^ count / n₂ := by
      rw [Nat.le_div_iff_mul_le h₂]
      have hexponent : 53 + n₂.log2 ≤ n₁.log2 + count := by
        have htarget : e ≤ Format.binary64.targetExponent d := min_le_right _ _
        simp only [Format.targetExponent, Format.mantissaBits, Format.minExponent] at htarget
        simp only [totalExponent] at hd
        norm_num at htarget
        omega
      calc 2 ^ 52 * n₂ ≤ 2 ^ 52 * 2 ^ (n₂.log2 + 1) :=
            Nat.mul_le_mul_left _ Nat.lt_log2_self.le
        _ = 2 ^ (53 + n₂.log2) := by rw [← Nat.pow_add]; congr 1; omega
        _ ≤ 2 ^ (n₁.log2 + count) := Nat.pow_le_pow_right (by decide) hexponent
        _ = 2 ^ n₁.log2 * 2 ^ count := Nat.pow_add _ _ _
        _ ≤ n₁ * 2 ^ count := Nat.mul_le_mul_right _ (Nat.log2_self_le h₁.ne')
    have hlog := (Nat.le_log2 (Nat.ne_of_gt (Nat.lt_of_lt_of_le (by decide) hbits))).mpr hbits
    omega

end PipelineCompiler.Number
