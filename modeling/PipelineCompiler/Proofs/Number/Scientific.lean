import Mathlib
import PipelineCompiler.Number.Numeral
import PipelineCompiler.Proofs.Number.Rounding

namespace PipelineCompiler.Number

open Float.Model Float.Model.UnpackedFloat

/-!
# Decimals that are rounded to a float

Reading digits with a power of ten rounds once, whether the two numbers are floats themselves or
not.

* `unpack_pack_finite` — a float keeps its parts when it is packed;
* `unpack_eq` — the parts of a float are those that its bits are unpacked to;
* `ofScientific_near` — digits and a power of ten near a float are read as it;
* `scale_near` — so are signed digits;
* `scale_zero`, `eq_nan`, `eq_infinity` — the floats that have no digits;
* `sign_mul` — the product with a sign.
-/

/-! ### Packed floats -/

/-- Finite floats with the same parts. -/
theorem finite_congr {sign : Sign} {k k' : Nat} {s s' : ℤ} {h : 0 < k}
    (hk : k = k') (hs : s = s') :
    UnpackedFloat.finite sign k s h = .finite sign k' s' (hk ▸ h) := by
  subst hk hs
  rfl

/-- The sign is unpacked. -/
theorem ofBitVec_toBitVec (sign : Sign) : Sign.ofBitVec sign.toBitVec = sign := by
  cases sign <;> rfl

/-- The mantissa of a normal float with its leading bit. -/
theorem toNat_leading (k : Nat) (hlow : 2 ^ 52 ≤ k) (hhigh : k < 2 ^ 53) :
    (1#1 ++ BitVec.ofNat 52 k).toNat = k := by
  rw [BitVec.toNat_append, ← Nat.shiftLeft_add_eq_or_of_lt (BitVec.isLt _), Nat.shiftLeft_eq]
  simp only [BitVec.toNat_ofNat]
  omega

/-- A float is unpacked to its parts. -/
theorem unpack_pack_finite {k : Nat} {s : ℤ} (h : Canonical k s) (hs : s ≤ 971) (sign : Sign) :
    (Float.Model.pack (.finite sign k s h.pos)).unpack = .finite sign k s h.pos := by
  have hleast := h.least
  obtain ⟨biased, hbiased⟩ : ∃ biased : Nat, s + 1075 = biased :=
    Int.eq_ofNat_of_zero_le (by omega)
  have hsmall : ¬ 2 ^ 11 ≤ biased + 1 := by omega
  have hexponent : (s + (Format.binary64.exponentBias : ℤ) + (52 : ℕ)).toNat = biased := by
    have hbias : Format.binary64.exponentBias = 1023 := rfl
    rw [hbias]
    omega
  show UnpackedFloat.unpack .binary64 (UnpackedFloat.pack .binary64 (.finite sign k s h.pos)) = _
  rw [UnpackedFloat.pack]
  dsimp only
  rw [hexponent, if_neg hsmall]
  -- A subnormal float has no leading bit, and a normal one hides it.
  rcases Nat.lt_or_ge k (2 ^ 52) with hlow | hnormal
  · obtain rfl : s = -1074 := h.normal.resolve_left (not_le.mpr hlow)
    have hlog : k.log2 + 1 ≠ Format.binary64.mantissaBits := by
      have := (Nat.log2_lt h.pos.ne').mpr hlow
      show k.log2 + 1 ≠ 53
      omega
    have hmantissa : (BitVec.ofNat 52 k).toNat = k := by
      rw [BitVec.toNat_ofNat, Nat.mod_eq_of_lt hlow]
    have hne : BitVec.ofNat 52 k ≠ 0#52 := by
      intro heq
      rw [heq] at hmantissa
      exact h.pos.ne hmantissa
    rw [if_neg hlog, UnpackedFloat.unpack]
    simp only [unpackExponent_packComponents, unpackMantissa_packComponents,
      unpackSign_packComponents, ofBitVec_toBitVec]
    rw [if_neg (by decide), if_pos trivial, dif_neg hne]
    exact finite_congr hmantissa rfl
  · have hlog : k.log2 + 1 = Format.binary64.mantissaBits := by
      have hlt := (Nat.log2_lt h.pos.ne').mpr h.bound
      have hle := (Nat.le_log2 h.pos.ne').mpr hnormal
      show k.log2 + 1 = 53
      omega
    have hbits : (BitVec.ofNat 11 biased).toNat = biased := by
      rw [BitVec.toNat_ofNat, Nat.mod_eq_of_lt (by omega)]
    have hnotLast : BitVec.ofNat 11 biased ≠ -1#11 := by
      intro heq
      rw [heq] at hbits
      have : (-1#11 : BitVec 11).toNat = 2047 := rfl
      omega
    have hnotFirst : BitVec.ofNat 11 biased ≠ 0#11 := by
      intro heq
      rw [heq] at hbits
      have : (0#11 : BitVec 11).toNat = 0 := rfl
      omega
    rw [if_pos hlog, UnpackedFloat.unpack]
    simp only [unpackExponent_packComponents, unpackMantissa_packComponents,
      unpackSign_packComponents, ofBitVec_toBitVec]
    rw [if_neg hnotLast, if_neg hnotFirst]
    refine finite_congr (toNat_leading k hnormal h.bound) ?_
    rw [hbits]
    have hbias : Format.binary64.exponentBias = 1023 := rfl
    rw [hbias]
    omega

/-! ### The parts of a float -/

/-- The bits of the mantissa. -/
theorem toNat_unpackMantissa (b : BitVec 64) :
    (@unpackMantissa .binary64 b).toNat = b.toNat % 2 ^ 52 := by
  rw [unpackMantissa, BitVec.toNat_cast, BitVec.extractLsb_toNat]
  rfl

/-- The bits of the exponent. -/
theorem toNat_unpackExponent (b : BitVec 64) :
    (@unpackExponent .binary64 b).toNat = b.toNat / 2 ^ 52 % 2 ^ 11 := by
  rw [unpackExponent, BitVec.toNat_cast, BitVec.extractLsb_toNat, Nat.shiftRight_eq_div_pow]
  rfl

/-- The bit of the sign. -/
theorem toNat_unpackSign (b : BitVec 64) :
    (@unpackSign .binary64 b).toNat = b.toNat / 2 ^ 63 := by
  rw [unpackSign, BitVec.toNat_cast, BitVec.extractLsb_toNat, Nat.shiftRight_eq_div_pow]
  have := b.isLt
  show b.toNat / 2 ^ 63 % 2 ^ 1 = _
  omega

/-- The sign of a float that is negative or not. -/
def signOf (negative : Bool) : Sign := if negative then .negative else .positive

/-- The sign of a float is that of its parts. -/
theorem ofBitVec_unpackSign (b : BitVec 64) :
    Sign.ofBitVec (@unpackSign .binary64 b) = signOf (b.toNat / 2 ^ 63 == 1) := by
  have hbit := toNat_unpackSign b
  have hlt : b.toNat / 2 ^ 63 < 2 := by
    have := b.isLt
    omega
  rw [Sign.ofBitVec]
  by_cases hzero : @unpackSign .binary64 b = 0#1
  · rw [hzero] at hbit
    have hquotient : b.toNat / 2 ^ 63 = 0 := hbit.symm
    rw [if_pos hzero, hquotient]
    rfl
  · have hquotient : b.toNat / 2 ^ 63 = 1 := by
      have hne : b.toNat / 2 ^ 63 ≠ 0 := fun heq => hzero (BitVec.eq_of_toNat_eq (hbit.trans heq))
      omega
    rw [if_neg hzero, hquotient]
    rfl

/-- The parts that are read off the bits of a float. -/
def partsOf (b : BitVec 64) : Parts :=
  let fraction : Nat := b.toNat % 2 ^ 52
  let biased : Nat := b.toNat / 2 ^ 52 % 2 ^ 11
  let negative := b.toNat / 2 ^ 63 == 1
  if biased = 0 then ⟨negative, fraction, -1074⟩
  else ⟨negative, fraction + 2 ^ 52, (biased : Int) - 1075⟩

/-- The parts of a float are those of its bits. -/
theorem ofFloat_eq (x : Float) : Parts.ofFloat x = partsOf x.toModel.toBits.toBitVec := by
  rw [Parts.ofFloat, partsOf]
  simp only [Nat.pow_eq]
  rfl

/-- What the bits of a finite float are unpacked to. -/
theorem unpack_bits {b : BitVec 64} (hnan : (UnpackedFloat.unpack .binary64 b).isNaN = false)
    (hinf : (UnpackedFloat.unpack .binary64 b).isInf = false) :
    (UnpackedFloat.unpack .binary64 b = .zero (signOf (partsOf b).negative) ∧
        (partsOf b).mantissa = 0) ∨
      ∃ h : Canonical (partsOf b).mantissa (partsOf b).exponent, (partsOf b).exponent ≤ 971 ∧
        UnpackedFloat.unpack .binary64 b =
          .finite (signOf (partsOf b).negative) (partsOf b).mantissa
            (partsOf b).exponent h.pos := by
  have hmantissa := toNat_unpackMantissa b
  have hexponent := toNat_unpackExponent b
  have hbias : Format.binary64.exponentBias = 1023 := rfl
  rw [UnpackedFloat.unpack] at hnan hinf ⊢
  dsimp only at hnan hinf ⊢
  rw [ofBitVec_unpackSign, hbias] at hnan hinf ⊢
  by_cases hlast : @unpackExponent .binary64 b = -1#11
  · -- all bits of the exponent are set in an infinity and in what is no number
    rw [if_pos hlast] at hnan hinf
    by_cases hzero : @unpackMantissa .binary64 b = 0#52
    · rw [if_pos hzero] at hinf
      cases hinf
    · rw [if_neg hzero] at hnan
      cases hnan
  · rw [if_neg hlast]
    by_cases hfirst : @unpackExponent .binary64 b = 0#11
    · have hbiased : b.toNat / 2 ^ 52 % 2 ^ 11 = 0 := by
        rw [← hexponent, hfirst]
        rfl
      rw [if_pos hfirst, partsOf, if_pos hbiased]
      by_cases hzero : @unpackMantissa .binary64 b = 0#52
      · left
        rw [dif_pos hzero]
        refine ⟨rfl, ?_⟩
        rw [← hmantissa, hzero]
        rfl
      · right
        have hpos : 0 < b.toNat % 2 ^ 52 := by
          rw [← hmantissa]
          exact Nat.pos_of_ne_zero fun heq => hzero (BitVec.eq_of_toNat_eq heq)
        rw [dif_neg hzero]
        have hcanonical : Canonical (b.toNat % 2 ^ 52) (-1074) :=
          ⟨hpos, by omega, le_refl _, .inr rfl⟩
        refine ⟨hcanonical, by norm_num, finite_congr hmantissa ?_⟩
        rw [hfirst]
        rfl
    · right
      have hbiased : b.toNat / 2 ^ 52 % 2 ^ 11 ≠ 0 := by
        rw [← hexponent]
        exact fun heq => hfirst (BitVec.eq_of_toNat_eq heq)
      have hbiased' : b.toNat / 2 ^ 52 % 2 ^ 11 ≠ 2047 := by
        rw [← hexponent]
        exact fun heq => hlast (BitVec.eq_of_toNat_eq heq)
      rw [if_neg hfirst, partsOf, if_neg hbiased]
      have hcanonical : Canonical (b.toNat % 2 ^ 52 + 2 ^ 52)
          ((b.toNat / 2 ^ 52 % 2 ^ 11 : Nat) - 1075) :=
        ⟨by omega, by omega, by omega, .inl (by omega)⟩
      have hexponents : ((b.toNat / 2 ^ 52 % 2 ^ 11 : Nat) : ℤ) - 1075 ≤ 971 := by omega
      refine ⟨hcanonical, hexponents, finite_congr ?_ ?_⟩
      · rw [BitVec.toNat_append, ← Nat.shiftLeft_add_eq_or_of_lt (BitVec.isLt _), hmantissa,
          Nat.shiftLeft_eq]
        simp only [BitVec.toNat_ofNat]
        omega
      · show ((@unpackExponent .binary64 b).toNat : ℤ) - ((1023 : ℕ) + (52 : ℕ)) =
          ((b.toNat / 2 ^ 52 % 2 ^ 11 : Nat) : ℤ) - 1075
        omega

/-- What a finite float is unpacked to, in terms of its parts. -/
theorem unpack_eq {x : Float} (hnan : x.isNaN = false) (hinf : x.isInf = false) :
    (x.toModel.unpack = .zero (signOf (Parts.ofFloat x).negative) ∧
        (Parts.ofFloat x).mantissa = 0) ∨
      ∃ h : Canonical (Parts.ofFloat x).mantissa (Parts.ofFloat x).exponent,
        (Parts.ofFloat x).exponent ≤ 971 ∧
          x.toModel.unpack = .finite (signOf (Parts.ofFloat x).negative)
            (Parts.ofFloat x).mantissa (Parts.ofFloat x).exponent h.pos := by
  rw [ofFloat_eq]
  exact unpack_bits hnan hinf

/-! ### Scientific notation -/

/-- A number near a float is not zero. -/
theorem Near.pos {k : Nat} {s : ℤ} {q : ℚ} (h : Near k s q) (hk : Canonical k s) :
    2 ^ s * (1 / 2) ≤ q := by
  have hunit : (0 : ℚ) < 2 ^ s := by positivity
  have hone : (1 : ℚ) ≤ k := by
    exact_mod_cast hk.pos
  have hgap := gapBelow_le k s
  nlinarith [h.low]

/-- Digits near a float are not all zero. -/
theorem Near.digits_pos {n k : Nat} {s p : ℤ} (h : Near k s (n * 10 ^ p)) (hk : Canonical k s) :
    0 < n := by
  apply Nat.pos_of_ne_zero
  rintro rfl
  have hunit : (0 : ℚ) < 2 ^ s := by positivity
  have hlow := h.pos hk
  rw [Nat.cast_zero, zero_mul] at hlow
  linarith

/-- A number near a finite float is less than the next power of two. -/
theorem Near.lt {k : Nat} {s : ℤ} {q : ℚ} (h : Near k s q) (hk : Canonical k s) :
    q < 2 ^ (s + 53) := by
  have hunit : (0 : ℚ) < 2 ^ s := by positivity
  have hbound : (k : ℚ) + 1 ≤ 2 ^ 53 := by
    exact_mod_cast hk.bound
  have hpower := two_zpow_add s 53
  push_cast at hpower
  rw [hpower]
  nlinarith [h.high]

/-- A decimal near a float has no exponent so large that it would be cut off as an infinity. -/
theorem Near.not_huge {n k : Nat} {e s : ℤ} (h : Near k s (n * 10 ^ e)) (hk : Canonical k s)
    (hs : s ≤ 971) : ¬ e > 2 ^ 11 := by
  intro hgt
  obtain ⟨count, rfl⟩ := Int.eq_ofNat_of_zero_le (show 0 ≤ e by omega)
  have hone : (1 : ℚ) ≤ n := by
    exact_mod_cast h.digits_pos hk
  have hpower : (2 : ℚ) ^ (count : ℤ) ≤ 10 ^ (count : ℤ) := by
    rw [zpow_natCast, zpow_natCast]
    gcongr
    norm_num
  have hless : (2 : ℚ) ^ (count : ℤ) < 2 ^ (s + 53) := by
    calc (2 : ℚ) ^ (count : ℤ) ≤ 10 ^ (count : ℤ) := hpower
      _ ≤ n * 10 ^ (count : ℤ) := le_mul_of_one_le_left (by positivity) hone
      _ < 2 ^ (s + 53) := h.lt hk
  have := (zpow_lt_zpow_iff_right₀ (one_lt_two : (1 : ℚ) < 2)).mp hless
  omega

/-- Nor has it one so small that it would be cut off as zero. -/
theorem Near.not_tiny {n k : Nat} {e s : ℤ} (h : Near k s (n * 10 ^ e)) (hk : Canonical k s) :
    ¬ e < -(2 ^ 11 + (n.log2 : ℤ)) := by
  intro hlt
  have hleast := hk.least
  have hten : (2 : ℚ) ^ (-1075 : ℤ) ≤ 2 ^ s * (1 / 2) := by
    have hhalf : (2 : ℚ) ^ s * (1 / 2) = 2 ^ (s - 1) := by
      rw [zpow_sub_one₀ two_ne_zero]
      ring
    rw [hhalf]
    exact zpow_le_zpow_right₀ one_le_two (by omega)
  have hbits : (n : ℚ) ≤ 2 ^ (n.log2 + 1) := by
    exact_mod_cast Nat.lt_log2_self.le
  have hpower : (10 : ℚ) ^ e ≤ 2 ^ e := by
    obtain ⟨count, hcount⟩ := Int.eq_ofNat_of_zero_le (show 0 ≤ -e by omega)
    obtain rfl : e = -(count : ℤ) := by omega
    rw [zpow_neg, zpow_neg, zpow_natCast, zpow_natCast]
    gcongr
    norm_num
  have hless : (2 : ℚ) ^ (-1075 : ℤ) ≤ 2 ^ (e + (n.log2 + 1 : ℕ)) := by
    rw [two_zpow_add]
    calc (2 : ℚ) ^ (-1075 : ℤ) ≤ n * 10 ^ e := hten.trans (h.pos hk)
      _ ≤ 2 ^ (n.log2 + 1) * 2 ^ e := by gcongr
  have := (zpow_le_zpow_iff_right₀ (one_lt_two : (1 : ℚ) < 2)).mp hless
  push_cast at this
  omega

/-- **A decimal near a float is rounded to it.** -/
theorem ofScientific_finite {n k : Nat} {e s : ℤ} (hk : Canonical k s) (hs : s ≤ 971)
    (hq : Near k s (n * 10 ^ e)) :
    UnpackedFloat.ofScientific .binary64 n e = .finite .positive k s hk.pos := by
  have hpos := hq.digits_pos hk
  rw [UnpackedFloat.ofScientific, dif_neg hpos.ne', if_neg (hq.not_huge hk hs),
    if_neg (hq.not_tiny hk)]
  -- A power of ten is multiplied if it is whole, and divided by otherwise.
  by_cases he : 0 ≤ e
  · obtain ⟨count, rfl⟩ := Int.eq_ofNat_of_zero_le he
    rw [if_pos he]
    refine mul_finite _ _ ?_ hk ?_
    · have hfactors : 2 ^ 53 ≤ n <<< 53 * 10 ^ count := by
        rw [Nat.shiftLeft_eq]
        calc 2 ^ 53 = 1 * 2 ^ 53 * 1 := by norm_num
          _ ≤ n * 2 ^ 53 * 10 ^ count :=
            Nat.mul_le_mul (Nat.mul_le_mul_right _ hpos) (Nat.pow_pos (by norm_num))
      have hlog := (Nat.le_log2 (by omega)).mpr hfactors
      show -((53 : ℕ) : ℤ) + 0 ≤
        ((n <<< 53 * 10 ^ count).log2 : ℤ) + (-((53 : ℕ) : ℤ) + 0) - 52
      omega
    · have hvalue : (n <<< 53 : Nat) * (2 : ℚ) ^ (-((53 : ℕ) : ℤ)) *
          ((10 ^ count : Nat) * 2 ^ (0 : ℤ)) = n * 10 ^ (count : ℤ) := by
        rw [Nat.shiftLeft_eq, zpow_neg, zpow_natCast, zpow_natCast, zpow_zero]
        push_cast
        field_simp
        norm_num
      exact hvalue.symm ▸ hq
  · obtain ⟨count, hcount⟩ := Int.eq_ofNat_of_zero_le (show 0 ≤ -e by omega)
    obtain rfl : e = -(count : ℤ) := by omega
    have hvalue : (n : ℚ) * 2 ^ (0 : ℤ) / ((10 ^ count : Nat) * 2 ^ (0 : ℤ)) =
        n * 10 ^ (-(count : ℤ)) := by
      rw [zpow_neg, zpow_natCast, zpow_zero]
      push_cast
      ring
    have hcount' : (-(-(count : ℤ))).toNat = count := by omega
    rw [if_neg he]
    refine div_finite _ _ hk ?_
    rw [hcount', hvalue]
    exact hq

/-- A float is near itself. -/
theorem Near.self (k : Nat) (s : ℤ) : Near k s (k * 2 ^ s) := by
  have hunit : (0 : ℚ) < 2 ^ s := by positivity
  have hgap := gapBelow_le k s
  refine ⟨by nlinarith, by nlinarith, ?_⟩
  rintro (heq | heq)
  · nlinarith
  · nlinarith

/-- A whole number of few enough bits is a float. -/
theorem toFloat_finite {n : Nat} (hpos : 0 < n) (hbound : n < 2 ^ 53) :
    ∃ (shift : Nat) (h : Canonical (n * 2 ^ shift) (-shift)), 2 ^ 52 ≤ n * 2 ^ shift ∧
      n.toUInt64.toFloat.toModel.unpack = .finite .positive (n * 2 ^ shift) (-shift) h.pos := by
  -- The number is shifted until it has all 53 bits.
  have hlog : n.log2 ≤ 52 := Nat.lt_succ_iff.mp ((Nat.log2_lt hpos.ne').mpr hbound)
  obtain ⟨shift, hshift⟩ := Nat.exists_eq_add_of_le hlog
  have hlow : 2 ^ 52 ≤ n * 2 ^ shift := by
    rw [hshift, Nat.pow_add]
    exact Nat.mul_le_mul_right _ (Nat.log2_self_le hpos.ne')
  have hhigh : n * 2 ^ shift < 2 ^ 53 := by
    have hbits : 53 = n.log2 + 1 + shift := by omega
    rw [hbits, Nat.pow_add]
    exact Nat.mul_lt_mul_of_pos_right Nat.lt_log2_self (Nat.two_pow_pos shift)
  have hcanonical : Canonical (n * 2 ^ shift) (-shift) :=
    ⟨by omega, hhigh, by omega, .inl hlow⟩
  have htarget : Format.binary64.targetExponent (totalExponent n 0) = -shift := by
    rw [targetExponent_eq]
    omega
  have hword : n.toUInt64.toNat = n := by
    rw [Nat.toUInt64, UInt64.toNat_ofNat']
    omega
  -- Nothing is rounded then, since it is a multiple of the last place.
  have hround : UnpackedFloat.ofUInt64 .binary64 n.toUInt64 =
      .finite .positive (n * 2 ^ shift) (-shift) hcanonical.pos := by
    have hpositive : Ord.compare (n : ℤ) 0 = .gt := by
      rw [Int.compare_eq_gt]
      omega
    have hamount : ((0 : ℤ) - (-(shift : ℤ))).toNat = shift := by omega
    rw [UnpackedFloat.ofUInt64, UnpackedFloat.ofNat, hword, UnpackedFloat.ofInt,
      UnpackedFloat.normalize, hpositive]
    dsimp only
    rw [Int.toNat_natCast, UnpackedFloat.round, htarget, decreaseExponent, hamount,
      Nat.shiftLeft_eq, zero_sub]
    refine (denotes_exact _ _).round ?_ hcanonical (Near.self _ _) .positive
    have hlog' := (Nat.le_log2 hcanonical.pos.ne').mpr hlow
    rw [targetExponent_eq]
    omega
  refine ⟨shift, hcanonical, hlow, ?_⟩
  show (Float.Model.pack (UnpackedFloat.ofUInt64 .binary64 n.toUInt64)).unpack = _
  rw [hround]
  exact unpack_pack_finite hcanonical (by omega) .positive

/-- The small powers of ten are floats. -/
theorem powers_finite (i : Fin 23) :
    let x := Float.exactlyRepresentablePowersOfTen[i.val]
    let p := Parts.ofFloat x
    x.isNaN = false ∧ x.isInf = false ∧ p.negative = false ∧ 0 < p.mantissa ∧
      p.mantissa * 2 ^ p.exponent.toNat = 10 ^ i.val * 2 ^ (-p.exponent).toNat := by
  revert i
  decide +kernel

/-- The power of ten that a flag and a count stand for. -/
def signedPower (negative : Bool) (count : Nat) : ℤ := if negative then -count else count

/-- A small power of ten as a float. -/
theorem unpack_power {count : Nat} (hcount : count < Float.exactlyRepresentablePowersOfTen.size) :
    ∃ (k : Nat) (s : ℤ) (h : 0 < k), ((k : ℚ) * 2 ^ s = 10 ^ count) ∧
      (Float.exactlyRepresentablePowersOfTen[count]).toModel.unpack = .finite .positive k s h := by
  obtain ⟨hnan, hinf, hsign, hpos, hvalue⟩ := powers_finite ⟨count, hcount⟩
  dsimp only at hnan hinf hsign hpos hvalue
  rcases unpack_eq hnan hinf with ⟨-, hzero⟩ | ⟨h, -, hunpack⟩
  · omega
  · rw [hsign] at hunpack
    refine ⟨_, _, h.pos, ?_, hunpack⟩
    generalize Parts.ofFloat Float.exactlyRepresentablePowersOfTen[count] = p at hvalue ⊢
    have hsplit : p.exponent = p.exponent.toNat - (-p.exponent).toNat := by omega
    have hvalue' : (p.mantissa : ℚ) * 2 ^ p.exponent.toNat =
        10 ^ count * 2 ^ (-p.exponent).toNat := by
      exact_mod_cast hvalue
    rw [hsplit, zpow_sub₀ two_ne_zero, zpow_natCast, zpow_natCast, ← mul_div_assoc, hvalue']
    field_simp

/-- **Digits and a power of ten near a float are read as it.** -/
theorem ofScientific_near {n k count : Nat} {s : ℤ} {negative : Bool} (hk : Canonical k s)
    (hs : s ≤ 971) (hq : Near k s (n * 10 ^ signedPower negative count)) :
    Float.ofScientific n negative count =
      .ofModel (Float.Model.pack (.finite .positive k s hk.pos)) := by
  rw [Float.ofScientific]
  by_cases hsmall : n < 2 ^ 53 ∧ count ≤ 22
  · -- both numbers are floats, and the product or quotient of them is rounded once
    have hpos := hq.digits_pos hk
    obtain ⟨shift, hcanonical, hlow, hleft⟩ := toFloat_finite hpos hsmall.1
    have hindex : count < Float.exactlyRepresentablePowersOfTen.size :=
      Nat.lt_succ_of_le hsmall.2
    obtain ⟨k', s', hpos', hvalue, hright⟩ := unpack_power hindex
    have hwhole : ((n * 2 ^ shift : Nat) : ℚ) * 2 ^ (-(shift : ℤ)) = n := by
      rw [zpow_neg, zpow_natCast]
      push_cast
      field_simp
    rw [dif_pos hsmall]
    cases negative with
    | true =>
      rw [if_pos rfl]
      show Float.ofModel (Float.Model.pack (UnpackedFloat.div .binary64
        n.toUInt64.toFloat.toModel.unpack
        (Float.exactlyRepresentablePowersOfTen[count]).toModel.unpack)) = _
      rw [hleft, hright, div_finite hcanonical.pos hpos' hk]
      rw [hwhole, hvalue]
      have hquotient : (n : ℚ) * 10 ^ signedPower true count = n / 10 ^ count := by
        rw [signedPower, if_pos rfl, zpow_neg, zpow_natCast, div_eq_mul_inv]
      rw [← hquotient]
      exact hq
    | false =>
      rw [if_neg (by decide)]
      show Float.ofModel (Float.Model.pack (UnpackedFloat.mul .binary64
        n.toUInt64.toFloat.toModel.unpack
        (Float.exactlyRepresentablePowersOfTen[count]).toModel.unpack)) = _
      rw [hleft, hright, mul_finite hcanonical.pos hpos' _ hk]
      · rw [hwhole, hvalue]
        exact hq
      · have hfactors : 2 ^ 52 ≤ n * 2 ^ shift * k' :=
          Nat.le_trans hlow (Nat.le_mul_of_pos_right _ hpos')
        have hlog := (Nat.le_log2 (by omega)).mpr hfactors
        omega
  · rw [dif_neg hsmall]
    show Float.ofModel (Float.Model.pack (UnpackedFloat.ofScientific .binary64 n
      (if negative = true then Int.negOfNat count else Int.ofNat count))) = _
    have hpower : (if negative = true then Int.negOfNat count else Int.ofNat count) =
        signedPower negative count := by
      cases negative with
      | true => exact Int.negOfNat_eq
      | false => rfl
    rw [hpower, ofScientific_finite hk hs hq]

/-! ### Scaled digits -/

/-- A float is the one that its parts are packed to. -/
theorem ofModel_pack_unpack (x : Float) :
    Float.ofModel (Float.Model.pack x.toModel.unpack) = x :=
  Float.ofBits_toBits x

/-- A number lies below the power of ten with as many zeros as it has digits, and not below the
    one with a zero less. -/
theorem toDigits_bounds {n : Nat} (hpos : 0 < n) :
    10 ^ ((Nat.toDigits 10 n).length - 1) ≤ n ∧ n < 10 ^ (Nat.toDigits 10 n).length := by
  refine ⟨?_, (Nat.length_toDigits_le_iff (by decide) Nat.length_toDigits_pos).mp (le_refl _)⟩
  rcases Nat.eq_zero_or_pos ((Nat.toDigits 10 n).length - 1) with hone | hmore
  · rw [hone]
    exact hpos
  · by_contra hlt
    have := (Nat.length_toDigits_le_iff (by decide) hmore).mpr (not_le.mp hlt)
    omega

/-- The powers of ten around a number with an exponent. -/
theorem size_bounds {n : Nat} (hpos : 0 < n) (p : ℤ) :
    (10 : ℚ) ^ (((Nat.toDigits 10 n).length : ℤ) + p - 1) ≤ n * 10 ^ p ∧
      (n : ℚ) * 10 ^ p < 10 ^ (((Nat.toDigits 10 n).length : ℤ) + p) := by
  have hten : (10 : ℚ) ≠ 0 := by norm_num
  obtain ⟨hlow, hhigh⟩ := toDigits_bounds hpos
  have hlength : ((Nat.toDigits 10 n).length : ℤ) + p - 1 =
      ((Nat.toDigits 10 n).length - 1 : Nat) + p := by
    have := @Nat.length_toDigits_pos 10 n
    omega
  rw [hlength, zpow_add₀ hten, zpow_natCast, zpow_add₀ hten, zpow_natCast]
  constructor
  · gcongr
    exact_mod_cast hlow
  · gcongr
    exact_mod_cast hhigh

/-- The powers of ten that are tried reach beyond every float. -/
theorem two_zpow_le_ten_zpow : (2 : ℚ) ^ (1200 : ℤ) ≤ 10 ^ (400 : ℤ) := by
  have height : (2 : ℚ) ^ (1200 : ℤ) = (2 ^ (3 : ℕ)) ^ (400 : ℕ) := by
    rw [← pow_mul]
    rfl
  have hten : (10 : ℚ) ^ (400 : ℤ) = 10 ^ (400 : ℕ) := rfl
  rw [height, hten]
  gcongr
  norm_num

/-- **Digits near a float are scaled to it.** -/
theorem scale_near {x : Float} {digits : Nat} {p : ℤ} (hnan : x.isNaN = false)
    (hinf : x.isInf = false) (hpos : (Parts.ofFloat x).mantissa ≠ 0)
    (hq : Near (Parts.ofFloat x).mantissa (Parts.ofFloat x).exponent (digits * 10 ^ p)) :
    scale (Parts.ofFloat x).negative digits p = x := by
  obtain ⟨hk, hs, hunpack⟩ := (unpack_eq hnan hinf).resolve_left fun hzero => hpos hzero.2
  have hx := ofModel_pack_unpack x
  rw [hunpack] at hx
  generalize Parts.ofFloat x = parts at *
  have hdigits := hq.digits_pos hk
  obtain ⟨hlow, hhigh⟩ := size_bounds hdigits p
  have hleast := hk.least
  have hten : (1 : ℚ) < 10 := by norm_num
  -- the least and the greatest float lie within the powers of ten that are tried
  have hnotTiny : ¬ ((Nat.toDigits 10 digits).length : ℤ) + p < -400 := by
    intro hlt
    have hmore : (10 : ℚ) ^ (-400 : ℤ) < 2 ^ parts.exponent * (1 / 2) := by
      calc (10 : ℚ) ^ (-400 : ℤ) = (10 ^ (400 : ℤ))⁻¹ := zpow_neg _ _
        _ ≤ (2 ^ (1200 : ℤ))⁻¹ := inv_anti₀ (by positivity) two_zpow_le_ten_zpow
        _ = 2 ^ (-1200 : ℤ) := (zpow_neg _ _).symm
        _ < 2 ^ (parts.exponent - 1) := zpow_lt_zpow_right₀ one_lt_two (by omega)
        _ = 2 ^ parts.exponent * (1 / 2) := by
          rw [zpow_sub_one₀ two_ne_zero]
          ring
    have hless := hmore.trans ((hq.pos hk).trans_lt hhigh)
    have := (zpow_lt_zpow_iff_right₀ hten).mp hless
    omega
  have hnotHuge : ¬ 400 < ((Nat.toDigits 10 digits).length : ℤ) + p := by
    intro hgt
    have hmore : (2 : ℚ) ^ (parts.exponent + 53) ≤ 10 ^ (400 : ℤ) := by
      calc (2 : ℚ) ^ (parts.exponent + 53) ≤ 2 ^ (1200 : ℤ) :=
            zpow_le_zpow_right₀ one_le_two (by omega)
        _ ≤ 10 ^ (400 : ℤ) := two_zpow_le_ten_zpow
    have hless := (hlow.trans_lt (hq.lt hk)).trans_le hmore
    have := (zpow_lt_zpow_iff_right₀ hten).mp hless
    omega
  have hpower : signedPower (p < 0) p.natAbs = p := by
    rw [signedPower]
    by_cases hnegative : p < 0
    · rw [if_pos (decide_eq_true hnegative)]
      omega
    · rw [if_neg (by simpa using hnegative)]
      omega
  rw [scale, if_neg (not_or.mpr ⟨hdigits.ne', hnotTiny⟩), if_neg hnotHuge,
    ofScientific_near hk hs (hpower.symm ▸ hq)]
  cases hsign : parts.negative with
  | false =>
    rw [if_neg Bool.false_ne_true]
    rw [hsign] at hx
    exact hx
  | true =>
    rw [if_pos rfl]
    rw [hsign] at hx
    show Float.ofModel (Float.Model.pack
      (Float.Model.pack (.finite .positive parts.mantissa parts.exponent hk.pos)).unpack.neg) = x
    rw [unpack_pack_finite hk hs]
    exact hx

/-- Zeros are scaled to a zero. -/
theorem scale_zero {x : Float} (hnan : x.isNaN = false) (hinf : x.isInf = false)
    (hzero : (Parts.ofFloat x).mantissa = 0) (p : ℤ) :
    scale (Parts.ofFloat x).negative 0 p = x := by
  have hunpack : x.toModel.unpack = .zero (signOf (Parts.ofFloat x).negative) := by
    rcases unpack_eq hnan hinf with ⟨hunpack, -⟩ | ⟨h, -⟩
    · exact hunpack
    · exact absurd hzero h.pos.ne'
  have hx := ofModel_pack_unpack x
  rw [hunpack] at hx
  have hdigits : (0 : Nat) = 0 ∨ ((Nat.toDigits 10 0).length : ℤ) + p < -400 := .inl rfl
  rw [scale, if_pos hdigits]
  generalize Parts.ofFloat x = parts at hx
  rw [← hx, ← Float.toBits_inj]
  cases parts.negative with
  | false => decide +kernel
  | true => decide +kernel

/-! ### Infinities and what is no number -/

/-- What is no number is the quotient of two zeros. -/
theorem eq_nan {x : Float} (h : x.isNaN = true) : x = 0 / 0 := by
  have hnan : (0 / 0 : Float) = Float.nan := by
    rw [← Float.toBits_inj]
    decide +kernel
  rw [Float.isNaN_eq_decide_eq_nan, decide_eq_true_eq] at h
  rw [h, hnan]

/-- An infinity is a quotient by zero or its negation. -/
theorem eq_infinity {x : Float} (h : x.isInf = true) :
    x = if x < 0 then -(1 / 0) else 1 / 0 := by
  -- A float is what it unpacks to, and this has four forms, of which one is infinite.
  have hx := ofModel_pack_unpack x
  have hinf : x.toModel.unpack.isInf = true := h
  cases hunpack : x.toModel.unpack with
  | infinity sign =>
    rw [hunpack] at hx
    rw [← hx, ← Float.toBits_inj]
    cases sign with
    | negative => decide +kernel
    | positive => decide +kernel
  | notANumber =>
    rw [hunpack] at hinf
    cases hinf
  | zero sign =>
    rw [hunpack] at hinf
    cases hinf
  | finite sign k s hpos =>
    rw [hunpack] at hinf
    cases hinf

/-! ### Signs -/

/-- The product of a finite float with one, or with its negation. -/
theorem unit_mul_finite {k : Nat} {e : ℤ} (hk : Canonical k e) (sign sign' : Sign) :
    UnpackedFloat.mul .binary64 (.finite sign (2 ^ 52) (-52) (by decide))
        (.finite sign' k e hk.pos) = .finite (sign * sign') k e hk.pos := by
  have hvalue : ((2 ^ 52 * k : Nat) : ℚ) * 2 ^ (-52 + e) = k * 2 ^ e := by
    rw [zpow_add₀ two_ne_zero]
    push_cast
    ring
  have hdenotes := denotes_exact (2 ^ 52 * k) (-52 + e)
  rw [hvalue] at hdenotes
  refine hdenotes.round ?_ hk (Near.self k e) (sign * sign')
  have hlow : 2 ^ 52 ≤ 2 ^ 52 * k := Nat.le_mul_of_pos_right _ hk.pos
  have hlog := (Nat.le_log2 (by omega)).mpr hlow
  rw [targetExponent_eq]
  omega

/-- The product of any float with one, or with its negation. -/
theorem unit_mul (sign : Sign) (x : Float) :
    UnpackedFloat.mul .binary64 (.finite sign (2 ^ 52) (-52) (by decide)) x.toModel.unpack =
      match sign with
      | .positive => x.toModel.unpack
      | .negative => x.toModel.unpack.neg := by
  cases hunpack : x.toModel.unpack with
  | notANumber => cases sign <;> rfl
  | infinity sign' => cases sign <;> cases sign' <;> rfl
  | zero sign' => cases sign <;> cases sign' <;> rfl
  -- Only finite numbers are computed with; what the others give is read off their signs.
  | finite sign' k e hpos =>
    have hnan : x.isNaN = false := congrArg UnpackedFloat.isNaN hunpack
    have hinf : x.isInf = false := congrArg UnpackedFloat.isInf hunpack
    rcases unpack_eq hnan hinf with ⟨hzero, -⟩ | ⟨hk, -, hfinite⟩
    · rw [hunpack] at hzero
      cases hzero
    · rw [hunpack] at hfinite
      obtain ⟨-, rfl, rfl⟩ := UnpackedFloat.finite.inj hfinite
      rw [unit_mul_finite hk]
      cases sign <;> cases sign' <;> rfl

/-- **A float times a sign.** -/
theorem sign_mul (negative : Bool) (x : Float) :
    (if negative then -1 else 1 : Float) * x = if negative then -x else x := by
  have hmul : ∀ sign : Float, sign * x =
      .ofModel (Float.Model.pack (UnpackedFloat.mul .binary64 sign.toModel.unpack
        x.toModel.unpack)) := fun _ => rfl
  cases negative with
  | false =>
    rw [if_neg Bool.false_ne_true, if_neg Bool.false_ne_true, hmul]
    exact (congrArg (fun u => Float.ofModel (Float.Model.pack u)) (unit_mul .positive x)).trans
      (ofModel_pack_unpack x)
  | true =>
    rw [if_pos rfl, if_pos rfl, hmul]
    exact congrArg (fun u => Float.ofModel (Float.Model.pack u)) (unit_mul .negative x)

end PipelineCompiler.Number
