import Mathlib.Tactic.IntervalCases
import PipelineCompiler.Json.Reader
import PipelineCompiler.Json.Writer

namespace PipelineCompiler.Json

/-!
# Reading quoted texts

A text is read back from its quoted form, whatever follows it.  So a quoted text ends at one place
only, and different texts have different quoted forms.

* `stringFrom_quoteChar` — one character is read back from its written form;
* `string_quote` — a text is read back from its quoted form;
* `quote_append_inj` — a quoted text and what follows it are determined by both together.
-/

/-- The characters of a text between its quotes. -/
def quotedChars (cs : List Char) : List Char := cs.flatMap fun c => (quoteChar c).toList

/-- A quoted text: its characters between two quotes. -/
theorem toList_quote (s : String) :
    (quote s).toList = '\x22' :: (quotedChars s.toList ++ ['\x22']) := by
  simp [quote, quotedChars, String.toList_join, List.flatMap_map]

/-- The escape of a control: its number, which is below thirty-two. -/
theorem toList_controlEscape : ∀ n < 0x20, ("\\u" ++ hex 4 n).toList
    = ['\\', 'u', '0', '0', Nat.digitChar (n / 16), Nat.digitChar (n % 16)] := by
  decide

/-- The number of a control is read back. -/
theorem fourHex?_control : ∀ n < 0x20, ∀ rest : List Char,
    fourHex? ('0' :: '0' :: Nat.digitChar (n / 16) :: Nat.digitChar (n % 16) :: rest)
      = some (n, rest) := by
  intro n hn rest
  interval_cases n <;> rfl

/-- A control is read back from its escape. -/
theorem stringFrom_control {c : Char} (hc : c.toNat < 0x20) (rest done : List Char) (fuel : Nat) :
    stringFrom done (fuel + 1) (("\\u" ++ hex 4 c.toNat).toList ++ rest)
      = stringFrom (c :: done) fuel rest := by
  have hcode : Text.charOfCode c.toNat = c := by
    have hhalf : Text.isHalf c.toNat = false := by
      simp only [Text.isHalf, Bool.and_eq_false_iff, decide_eq_false_iff_not]
      omega
    simp [Text.charOfCode, hhalf]
  have hpair : ∀ rest, unicodeEscape?
      ('0' :: '0' :: Nat.digitChar (c.toNat / 16) :: Nat.digitChar (c.toNat % 16) :: rest)
        = some (c, rest) := by
    intro rest
    have hhigh : ¬ 0xD800 ≤ c.toNat := by omega
    simp [unicodeEscape?, fourHex?_control c.toNat hc, hhigh, hcode]
  rw [toList_controlEscape c.toNat hc]
  simp [stringFrom, hpair]

/-- One character is read back from its written form. -/
theorem stringFrom_quoteChar (c : Char) (rest done : List Char) (fuel : Nat) :
    stringFrom done (fuel + 1) ((quoteChar c).toList ++ rest)
      = stringFrom (c :: done) fuel rest := by
  unfold quoteChar
  split
  next h =>
    obtain rfl := eq_of_beq h
    rfl
  next hquote =>
  split
  next h =>
    obtain rfl := eq_of_beq h
    rfl
  next hbackslash =>
  split
  next h =>
    obtain rfl := eq_of_beq h
    rfl
  next =>
  split
  next h =>
    obtain rfl := eq_of_beq h
    rfl
  next =>
  split
  next h =>
    obtain rfl := eq_of_beq h
    rfl
  next =>
  split
  next h =>
    obtain rfl := eq_of_beq h
    rfl
  next =>
  split
  next h =>
    obtain rfl := eq_of_beq h
    rfl
  next =>
  split
  -- all other characters below the blank are written as their code
  next hcontrol => exact stringFrom_control hcontrol rest done fuel
  next hprint =>
    have htext : c.toString.toList = [c] := String.toList_singleton c
    rw [htext, List.singleton_append, stringFrom.eq_def]
    dsimp only
    rw [if_neg hquote, if_neg hprint, if_neg hbackslash]

/-- A written character is not empty. -/
theorem length_quoteChar_pos (c : Char) : 0 < (quoteChar c).toList.length := by
  by_contra hzero
  have hnil : (quoteChar c).toList = [] := List.eq_nil_of_length_eq_zero (by omega)
  have hread := stringFrom_quoteChar c ['\x22'] [] 1
  rw [hnil] at hread
  simp [stringFrom] at hread

/-- The characters of a text are read back. -/
theorem stringFrom_quotedChars (cs rest done : List Char) (fuel : Nat) (h : cs.length < fuel) :
    stringFrom done fuel (quotedChars cs ++ '\x22' :: rest)
      = .ok (String.ofList (done.reverse ++ cs), rest) := by
  induction cs generalizing done fuel with
  | nil =>
    obtain ⟨fuel, rfl⟩ := Nat.exists_eq_add_of_lt h
    simp [quotedChars, stringFrom]
  | cons c cs ih =>
    obtain ⟨fuel, rfl⟩ : ∃ n, fuel = n + 1 := ⟨fuel - 1, by omega⟩
    have hshort : cs.length < fuel := by simpa using h
    have hchars : quotedChars (c :: cs) = (quoteChar c).toList ++ quotedChars cs := rfl
    rw [hchars, List.append_assoc, stringFrom_quoteChar, ih (c :: done) fuel hshort]
    simp

/-- Quoting makes no text shorter. -/
theorem length_le_quotedChars (cs : List Char) : cs.length ≤ (quotedChars cs).length := by
  induction cs with
  | nil => simp
  | cons c cs ih =>
    have hchars : quotedChars (c :: cs) = (quoteChar c).toList ++ quotedChars cs := rfl
    rw [hchars, List.length_append, List.length_cons]
    have := length_quoteChar_pos c
    omega

/-- **Round trip of texts.**  A text is read back from its quoted form. -/
theorem string_quote (s : String) (rest : List Char) :
    string (quotedChars s.toList ++ '\x22' :: rest) = .ok (s, rest) := by
  have hlen := length_le_quotedChars s.toList
  rw [string, stringFrom_quotedChars]
  · simp
  · simp only [List.length_append, List.length_cons]
    omega

/-- A quoted text and what follows it are determined by both together. -/
theorem quote_append_inj {s t : String} {rest rest' : List Char}
    (h : (quote s).toList ++ rest = (quote t).toList ++ rest') : s = t ∧ rest = rest' := by
  simp only [toList_quote, List.cons_append, List.cons.injEq, true_and, List.append_assoc,
    List.nil_append] at h
  have hread := string_quote s rest
  rw [h, string_quote] at hread
  simp only [Except.ok.injEq, Prod.mk.injEq] at hread
  exact ⟨hread.1.symm, hread.2.symm⟩

/-- Different texts have different quoted forms. -/
theorem quote_inj {s t : String} (h : quote s = quote t) : s = t := by
  have happend : (quote s).toList ++ [] = (quote t).toList ++ [] := by rw [h]
  exact (quote_append_inj happend).1

end PipelineCompiler.Json
