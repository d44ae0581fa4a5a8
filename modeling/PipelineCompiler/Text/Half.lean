namespace PipelineCompiler.Text

/-!
# Halves of surrogate pairs

An escape can name half of a surrogate pair.  A half is no character, so a text holds it as one of
the 2048 characters from `U+10D800` up to `U+10DFFF`, and such a text has no form in UTF-8.  These
characters are left to private use, and texts that use them for themselves are left out here.

* `charOfCode` — the character that holds a code point;
* `codeOf` — the code point that a character holds;
* `codes`, `codes_injective` — the code points of a text, by which texts are compared: a half
  stands before the characters from `U+E000` on, whatever holds it;
* `isWhole`, `isWhole_iff` — whether a text is free of halves.
-/

/-- Whether a code point is half of a surrogate pair. -/
def isHalf (code : Nat) : Bool := 0xD800 ≤ code && code ≤ 0xDFFF

/-- How far the character that holds a half is from it. -/
def halfShift : Nat := 0x100000

/-- The character that holds a code point. -/
def charOfCode (code : Nat) : Char := Char.ofNat (if isHalf code then halfShift + code else code)

/-- The code point that a character holds. -/
def codeOf (c : Char) : Nat :=
  if halfShift ≤ c.toNat && isHalf (c.toNat - halfShift) then c.toNat - halfShift else c.toNat

/-- The code points of a text.  Texts are put in order by them. -/
def codes (s : String) : List Nat := s.toList.map codeOf

/-- The byte with which the characters that hold halves begin in UTF-8. -/
def halfByte : UInt8 := 0xF4

/-- Whether a text is free of halves.  A text without their byte is, so that most texts need no
    closer look. -/
def isWhole (s : String) : Bool :=
  !(s.toUTF8.data.toList.contains halfByte) || s.toList.all fun c => !isHalf (codeOf c)

/-- Different characters hold different code points: no character is a half. -/
theorem codeOf_injective {c d : Char} (h : codeOf c = codeOf d) : c = d := by
  have hshift : halfShift = 1048576 := rfl
  have hc : c.toNat < 55296 ∨ 57343 < c.toNat := c.valid.imp id (·.1)
  have hd : d.toNat < 55296 ∨ 57343 < d.toNat := d.valid.imp id (·.1)
  have hnat : c.toNat = d.toNat := by
    simp only [codeOf, isHalf, hshift, Bool.and_eq_true, decide_eq_true_eq] at h
    split at h <;> split at h <;> omega
  exact Char.ext (UInt32.toNat_inj.mp hnat)

/-- Different texts have different code points. -/
theorem codes_injective {s t : String} (h : codes s = codes t) : s = t :=
  String.toList_injective (List.map_inj_right (fun _ _ => codeOf_injective) |>.mp h)

/-- The characters that hold halves. -/
theorem range_of_isHalf {c : Char} (h : isHalf (codeOf c) = true) :
    1103872 ≤ c.toNat ∧ c.toNat ≤ 1105919 := by
  have hvalid : c.toNat < 55296 ∨ 57343 < c.toNat := c.valid.imp id (·.1)
  have hhalf : ∀ n, isHalf n = true ↔ 55296 ≤ n ∧ n ≤ 57343 := by
    intro n
    simp [isHalf]
  have hshift : halfShift = 1048576 := rfl
  unfold codeOf at h
  split at h
  next hheld =>
    rw [Bool.and_eq_true, decide_eq_true_eq, hhalf] at hheld
    omega
  next =>
    rw [hhalf] at h
    omega

/-- A character that holds a half begins with the byte of halves. -/
theorem halfByte_mem_of_isHalf {c : Char} (h : isHalf (codeOf c) = true) :
    halfByte ∈ String.utf8EncodeChar c := by
  obtain ⟨hlow, hhigh⟩ := range_of_isHalf h
  have hval : c.val.toNat = c.toNat := rfl
  have hbyte : c.toNat / 262144 % 8 + 240 = 244 := by omega
  have h1 : ¬ c.toNat ≤ 127 := by omega
  have h2 : ¬ c.toNat ≤ 2047 := by omega
  have h3 : ¬ c.toNat ≤ 65535 := by omega
  unfold String.utf8EncodeChar
  dsimp only
  rw [hval, if_neg h1, if_neg h2, if_neg h3, hbyte]
  exact List.mem_cons_self

/-- **A text is whole when no character of it holds a half.** -/
theorem isWhole_iff (s : String) : isWhole s = true ↔ ∀ c ∈ s.toList,
    isHalf (codeOf c) = false := by
  have hbytes : s.toUTF8.data.toList = s.toList.flatMap String.utf8EncodeChar := by
    show s.toByteArray.data.toList = _
    rw [← String.utf8Encode_toList, List.utf8Encode]
    simp
  unfold isWhole
  rw [hbytes, Bool.or_eq_true, List.all_eq_true]
  -- The quick test looks for the byte that all halves have; without it there is none.
  constructor
  · rintro (hfree | hall) c hc
    · cases hhalf : isHalf (codeOf c) with
      | false => rfl
      | true =>
        have hmem : halfByte ∈ s.toList.flatMap String.utf8EncodeChar :=
          List.mem_flatMap.mpr ⟨c, hc, halfByte_mem_of_isHalf hhalf⟩
        rw [← List.contains_iff_mem] at hmem
        rw [hmem] at hfree
        cases hfree
    · simpa using hall c hc
  · exact fun hall => .inr fun c hc => by simp [hall c hc]

end PipelineCompiler.Text
