import Mathlib.Algebra.Order.Ring.Nat
import Mathlib.Tactic.Tauto
import PipelineCompiler.Proofs.Success
import PipelineCompiler.Yaml.Lexeme

namespace PipelineCompiler.Yaml

/-!
# Scalars are no longer than their text

A scalar takes the characters that it is read from, and every character gives one character at most:
breaks fold, escapes stand for one character, and marks are dropped.

* `Cursor.left` — how many characters are left;
* `Lexeme.length_plain`, `Lexeme.length_quoted`, `Lexeme.length_block` — the three ways to write a
  scalar;
* `Token.text?`, `Lexeme.left_named`, `Lexeme.left_tagToken`, `Lexeme.left_directive` — tokens
  without a text.
-/

/-- The text of a scalar. -/
def Token.text? : Token → Option String
  | .scalar text _ => some text
  | _ => none

namespace Cursor

variable (c : Cursor)

/-- How many characters are left. -/
def left : Nat := c.rest.length

/-- A step leaves what stands behind the next character. -/
theorem rest_step : c.step.rest = c.rest.tail := by
  unfold step
  split
  next h => rw [h]; rfl
  next x rest h =>
    rw [h]
    dsimp only
    split
    · rfl
    · split <;> rfl

/-- Some steps leave what stands behind as many characters. -/
theorem rest_advance (n : Nat) : (c.advance n).rest = c.rest.drop n := by
  induction n generalizing c with
  | zero => rfl
  | succ n ih => rw [advance, ih, rest_step, List.drop_tail]

/-- A step takes a character. -/
theorem left_step : c.step.left = c.left - 1 := by
  rw [left, rest_step, List.length_tail, left]

/-- So many steps take as many characters. -/
theorem left_advance (n : Nat) : (c.advance n).left = c.left - n := by
  rw [left, rest_advance, List.length_drop, left]

/-- What is taken is not left. -/
theorem left_takeWhile (p : Char → Bool) :
    (c.takeWhile p).1.length + (c.takeWhile p).2.left = c.left := by
  have hle : (c.rest.takeWhile p).length ≤ c.rest.length := (List.takeWhile_sublist p).length_le
  rw [takeWhile]
  dsimp only
  rw [left_advance, left]
  omega

/-- What is skipped is not left. -/
theorem left_skipWhile (p : Char → Bool) : (c.skipWhile p).left ≤ c.left := by
  have h := c.left_takeWhile p
  rw [skipWhile]
  omega

/-- Neither are spaces that are skipped. -/
theorem left_skipSpacesTo (column : Nat) : (c.skipSpacesTo column).left ≤ c.left := by
  rw [skipSpacesTo, left_advance]
  omega

variable {c}

/-- Where a character stands, something is left. -/
theorem left_pos (h : c.peek ≠ '\x00') : 0 < c.left := by
  rw [left]
  refine List.length_pos_iff.mpr fun hnil => h ?_
  rw [peek, ahead, hnil, List.getD_nil]

/-- A line break is a character. -/
theorem left_pos_of_isBreak (h : isBreak c.peek = true) : 0 < c.left := by
  refine left_pos fun hend => ?_
  rw [hend] at h
  cases h

/-- So is everything that is no gap. -/
theorem left_pos_of_not_isGap (h : isGap c.peek = false) : 0 < c.left := by
  refine left_pos fun hend => ?_
  rw [hend] at h
  cases h

/-- A character that is known is a character. -/
theorem left_pos_of_peek {x : Char} (h : (c.peek == x) = true) (hx : x ≠ '\x00') : 0 < c.left :=
  left_pos (eq_of_beq h ▸ hx)

variable (c)

/-- A line break gives a character at most, and takes one at least. -/
theorem left_lineBreak : c.lineBreak.1.length + c.lineBreak.2.left ≤ c.left := by
  have hstep := c.left_step
  unfold lineBreak
  dsimp only
  -- Two characters make one break, or one does, or there is none.
  split
  next h =>
    have hpos := left_pos_of_peek (Bool.and_eq_true_iff.mp h).1 (by decide)
    have hadvance := c.left_advance 2
    simp only [List.length_singleton]
    omega
  next =>
    split
    next h =>
      have hpos : 0 < c.left := left_pos fun hend => by
        rw [hend] at h
        cases h
      simp only [List.length_singleton]
      omega
    next =>
      split
      next h =>
        have hpos : 0 < c.left := left_pos fun hend => by
          rw [hend] at h
          cases h
        simp only [List.length_singleton]
        omega
      next => simp

/-- A line break that is there takes a character. -/
theorem left_lineBreak_lt (h : isBreak c.peek = true) : c.lineBreak.2.left + 1 ≤ c.left := by
  have hpos := left_pos_of_isBreak h
  have hle := c.left_lineBreak
  have hfound : c.lineBreak.1 ≠ [] := by
    unfold lineBreak
    dsimp only
    split
    · simp
    · split
      · simp
      · split
        · simp
        next h₁ h₂ h₃ =>
          simp only [isBreak, Bool.or_eq_true, beq_iff_eq] at h h₂ h₃
          exact absurd h (by tauto)
  have hlength := List.length_pos_iff.mpr hfound
  omega

end Cursor

namespace Lexeme

open Cursor

/-! ### Plain scalars -/

/-- A word is a piece of the text. -/
theorem length_plainRun (inFlow : Bool) (cs : List Char) :
    (plainRun inFlow cs).length ≤ cs.length := by
  induction cs with
  | nil => exact Nat.le_refl _
  | cons c rest ih =>
    rw [plainRun]
    split
    · exact Nat.zero_le _
    split
    · exact Nat.zero_le _
    split
    · exact Nat.zero_le _
    · exact Nat.succ_le_succ ih

/-- The breaks of empty lines. -/
theorem length_breaksAndSpaces (fuel : Nat) (c : Cursor) :
    (breaksAndSpaces fuel c).1.length + (breaksAndSpaces fuel c).2.2.left ≤ c.left := by
  induction fuel generalizing c with
  | zero => simp [breaksAndSpaces]
  | succ fuel ih =>
    rw [breaksAndSpaces]
    split
    · have hstep := c.left_step
      have hrest := ih c.step
      omega
    split
    · -- a break and what follows it
      have hbreak := c.left_lineBreak
      rcases hfound : c.lineBreak with ⟨found, after⟩
      have hrest := ih after
      rcases hothers : breaksAndSpaces fuel after with ⟨more, marked, end'⟩
      simp only [hfound, hothers] at hbreak hrest ⊢
      split
      · simp only [List.length_nil]
        omega
      · simp only [List.length_append]
        omega
    · simp

/-- The gap after a word. -/
theorem length_plainGap (c : Cursor) :
    (plainGap c).text.length + (plainGap c).cursor.left ≤ c.left := by
  have hspaces := c.left_takeWhile (· == ' ')
  unfold plainGap
  generalize c.takeWhile (· == ' ') = taken at hspaces ⊢
  obtain ⟨spaces, afterSpaces⟩ := taken
  dsimp only at hspaces ⊢
  -- A gap of spaces only, or one with a break, behind which the plain scalar may end.
  split
  next hbreak =>
    have hfirst := afterSpaces.left_lineBreak
    have htaken := afterSpaces.left_lineBreak_lt hbreak
    generalize afterSpaces.lineBreak = taken at hfirst htaken ⊢
    obtain ⟨first, afterFirst⟩ := taken
    have hbreaks := length_breaksAndSpaces (afterFirst.rest.length + 1) afterFirst
    dsimp only at hfirst htaken hbreaks ⊢
    split
    · simp only [List.length_nil]
      omega
    generalize breaksAndSpaces (afterFirst.rest.length + 1) afterFirst = taken at hbreaks ⊢
    obtain ⟨breaks, marked, afterBreaks⟩ := taken
    dsimp only at hbreaks ⊢
    split
    · simp only [List.length_nil]
      omega
    split
    · simp only [List.length_append]
      omega
    split
    · simp only [List.length_singleton]
      omega
    · dsimp only
      omega
  next =>
    dsimp only
    omega

/-- The words of a plain scalar, behind a gap. -/
theorem length_plainWords (inFlow : Bool) (indent : Int) (fuel : Nat) (gap : PlainGap) :
    (plainWords inFlow indent fuel gap).1.length +
      (plainWords inFlow indent fuel gap).2.2.left ≤ gap.text.length + gap.cursor.left := by
  -- By induction on the fuel: a word and the gap behind it take what they give.
  induction fuel generalizing gap with
  | zero => simp [plainWords]
  | succ fuel ih =>
    rw [plainWords]
    have hword : (if gap.cursor.peek == '#' then [] else plainRun inFlow gap.cursor.rest).length ≤
        gap.cursor.left := by
      split
      · exact Nat.zero_le _
      · exact length_plainRun inFlow gap.cursor.rest
    dsimp only
    generalize (if gap.cursor.peek == '#' then [] else plainRun inFlow gap.cursor.rest) = word
      at hword ⊢
    have hgap := length_plainGap (gap.cursor.advance word.length)
    rw [left_advance] at hgap
    generalize plainGap (gap.cursor.advance word.length) = next at hgap ⊢
    split
    · simp only [List.length_nil]
      omega
    split
    · simp only [List.length_append]
      omega
    · have hrest := ih next
      rcases hmore : plainWords inFlow indent fuel next with ⟨more, broken, end'⟩
      simp only [hmore, List.length_append] at hrest ⊢
      omega

/-- **A plain scalar** is no longer than what it takes. -/
theorem length_plain (inFlow : Bool) (indent : Int) (c : Cursor) :
    (plain inFlow indent c).1.length + (plain inFlow indent c).2.2.left ≤ c.left := by
  have h := length_plainWords inFlow indent (c.rest.length + 1) ⟨[], false, c⟩
  simp only [List.length_nil, Nat.zero_add] at h
  simpa [plain, String.length_ofList] using h

/-! ### Quoted scalars -/

/-- The breaks between the lines of a quoted scalar. -/
theorem length_quotedBreaks {fuel : Nat} {c after : Cursor} {found : List Char}
    (h : quotedBreaks fuel c = .ok (found, after)) : found.length + after.left ≤ c.left := by
  induction fuel generalizing c found after with
  | zero => cases h
  | succ fuel ih =>
    rw [quotedBreaks] at h
    obtain ⟨_, -, h⟩ := bind_eq_ok.mp h
    have hskip := c.left_skipWhile fun x => x == ' ' || x == '\t'
    generalize c.skipWhile (fun x => x == ' ' || x == '\t') = c at h hskip
    dsimp only at h
    -- A break that is found is followed by others, and takes a character.
    split at h
    · have hbreak := c.left_lineBreak
      obtain ⟨⟨more, end'⟩, hmore, h⟩ := bind_eq_ok.mp h
      obtain ⟨rfl, rfl⟩ := Prod.mk.inj (Except.ok.inj h)
      have hrest := ih hmore
      simp only [List.length_append]
      omega
    · obtain ⟨rfl, rfl⟩ := Prod.mk.inj (Except.ok.inj h)
      simpa using hskip

/-- A number gives a character. -/
theorem length_charOfCode {code : Nat} {found : List Char} (h : charOfCode code = .ok found) :
    found.length = 1 := by
  unfold charOfCode at h
  split at h
  · exact Except.ok.inj h ▸ rfl
  · split at h <;> cases h

/-- An escape takes its characters behind a backslash. -/
theorem length_escape {c after : Cursor} {found : List Char} (h : escape c = .ok (found, after)) :
    found.length + after.left ≤ c.left + 1 := by
  unfold escape at h
  -- A short escape, a number of a fixed width, or a break that is left out.
  split at h
  next =>
    obtain ⟨rfl, rfl⟩ := Prod.mk.inj (Except.ok.inj h)
    have hstep := c.left_step
    simp only [List.length_singleton]
    omega
  next width _ _ =>
    obtain ⟨_, -, h⟩ := bind_eq_ok.mp h
    obtain ⟨chars, hchars, h⟩ := bind_eq_ok.mp h
    obtain ⟨rfl, rfl⟩ := Prod.mk.inj (Except.ok.inj h)
    have hadvance := c.left_advance (width + 1)
    rw [length_charOfCode hchars]
    omega
  next =>
    obtain ⟨_, -, h⟩ := bind_eq_ok.mp h
    have hbreaks := length_quotedBreaks h
    have hbreak := c.left_lineBreak
    omega

/-- The blanks and breaks inside a quoted scalar. -/
theorem length_quotedGap {c after : Cursor} {found : List Char}
    (h : quotedGap c = .ok (found, after)) : found.length + after.left ≤ c.left := by
  unfold quotedGap at h
  have hblanks := c.left_takeWhile fun x => x == ' ' || x == '\t'
  generalize c.takeWhile (fun x => x == ' ' || x == '\t') = taken at h hblanks
  obtain ⟨blanks, c⟩ := taken
  dsimp only at h hblanks
  obtain ⟨_, -, h⟩ := bind_eq_ok.mp h
  -- With a break the gap is the breaks behind the first, or one space; without it is its blanks.
  split at h
  next hbreak =>
    have hfirst := c.left_lineBreak
    have htaken := c.left_lineBreak_lt hbreak
    obtain ⟨⟨breaks, end'⟩, hbreaks, h⟩ := bind_eq_ok.mp h
    have hrest := length_quotedBreaks hbreaks
    dsimp only at h
    split at h
    · obtain ⟨rfl, rfl⟩ := Prod.mk.inj (Except.ok.inj h)
      simp only [List.length_append]
      omega
    split at h
    · obtain ⟨rfl, rfl⟩ := Prod.mk.inj (Except.ok.inj h)
      simp only [List.length_singleton]
      omega
    · obtain ⟨rfl, rfl⟩ := Prod.mk.inj (Except.ok.inj h)
      omega
  next =>
    obtain ⟨rfl, rfl⟩ := Prod.mk.inj (Except.ok.inj h)
    omega

/-- The quote around a scalar. -/
def quoteMark (double : Bool) : Char := if double then '\x22' else '\x27'

/-- A piece of a quoted scalar: a doubled quote, an escape, blanks and breaks, or a character. -/
def quotedPiece (double : Bool) (c : Cursor) : Except Fault (List Char × Cursor) :=
  if c.peek == quoteMark double then .ok (['\x27'], c.advance 2)
  else if double && c.peek == '\\' then escape c.step
  else if isGap c.peek then quotedGap c
  else .ok ([c.peek], c.step)

/-- A quoted scalar ends, or goes on with a piece. -/
theorem quotedFrom_succ (double : Bool) (fuel : Nat) (c : Cursor) :
    quotedFrom double (fuel + 1) c =
      if c.peek == quoteMark double && !(!double && c.ahead 1 == '\x27') then
        .ok ([], c.step)
      else quotedPiece double c >>= fun piece =>
        quotedFrom double fuel piece.2 >>= fun others => .ok (piece.1 ++ others.1, others.2) := by
  rw [quotedFrom]
  unfold quotedPiece
  rw [← quoteMark]
  dsimp only
  split
  · rfl
  split
  · rfl
  split
  · rfl
  split <;> rfl

/-- A piece takes what it gives at least. -/
theorem length_quotedPiece {double : Bool} {c after : Cursor} {found : List Char}
    (h : quotedPiece double c = .ok (found, after)) : found.length + after.left ≤ c.left := by
  have hstep := c.left_step
  unfold quotedPiece at h
  -- Two quotes for one, an escape, a gap, or any other character.
  split at h
  next hquote =>
    obtain ⟨rfl, rfl⟩ := Prod.mk.inj (Except.ok.inj h)
    have hpos : 0 < c.left := left_pos_of_peek hquote (by cases double <;> decide)
    have hadvance := c.left_advance 2
    simp only [List.length_singleton]
    omega
  split at h
  next hslash =>
    have hpos : 0 < c.left := left_pos_of_peek (Bool.and_eq_true_iff.mp hslash).2 (by decide)
    have hescape := length_escape h
    omega
  split at h
  · exact length_quotedGap h
  next hgap =>
    obtain ⟨rfl, rfl⟩ := Prod.mk.inj (Except.ok.inj h)
    have hpos : 0 < c.left := left_pos_of_not_isGap (Bool.eq_false_iff.mpr hgap)
    simp only [List.length_singleton]
    omega

/-- The text up to the closing quote. -/
theorem length_quotedFrom {double : Bool} {fuel : Nat} {c after : Cursor} {found : List Char}
    (h : quotedFrom double fuel c = .ok (found, after)) : found.length + after.left ≤ c.left := by
  induction fuel generalizing c found after with
  | zero => cases h
  | succ fuel ih =>
    rw [quotedFrom_succ] at h
    split at h
    · obtain ⟨rfl, rfl⟩ := Prod.mk.inj (Except.ok.inj h)
      have hstep := c.left_step
      simp only [List.length_nil]
      omega
    · obtain ⟨⟨piece, next⟩, hpiece, h⟩ := bind_eq_ok.mp h
      obtain ⟨⟨others, end'⟩, hothers, h⟩ := bind_eq_ok.mp h
      obtain ⟨rfl, rfl⟩ := Prod.mk.inj (Except.ok.inj h)
      have htaken := length_quotedPiece hpiece
      have hrest := ih hothers
      simp only [List.length_append] at hrest ⊢
      omega

/-- **A quoted scalar** is no longer than what it takes. -/
theorem length_quoted {double : Bool} {c after : Cursor} {text : String}
    (h : quoted double c = .ok (text, after)) : text.length + after.left ≤ c.left := by
  unfold quoted at h
  obtain ⟨⟨found, end'⟩, hfound, h⟩ := bind_eq_ok.mp h
  obtain ⟨rfl, rfl⟩ := Prod.mk.inj (Except.ok.inj h)
  have hle := length_quotedFrom hfound
  have hstep := c.left_step
  rw [String.length_ofList]
  omega

/-! ### Block scalars -/

/-- The marks behind the start of a block scalar. -/
theorem left_blockMarks {c after : Cursor} {marks : Chomp × Option Nat}
    (h : blockMarks c = .ok (marks, after)) : after.left ≤ c.left := by
  have hstep := c.left_step
  have hadvance := c.left_advance 2
  unfold blockMarks at h
  split at h
  next chomp indent next hmarks =>
  obtain ⟨_, -, h⟩ := bind_eq_ok.mp h
  obtain ⟨_, -, h⟩ := bind_eq_ok.mp h
  obtain ⟨-, rfl⟩ := Prod.mk.inj (Except.ok.inj h)
  -- Either of the marks may come first, and both may be absent.
  split at hmarks
  · split at hmarks <;>
      (obtain ⟨-, hrest⟩ := Prod.mk.inj hmarks
       obtain ⟨-, rfl⟩ := Prod.mk.inj hrest
       omega)
  · split at hmarks <;>
      (obtain ⟨-, hrest⟩ := Prod.mk.inj hmarks
       obtain ⟨-, rfl⟩ := Prod.mk.inj hrest
       omega)
  · obtain ⟨-, hrest⟩ := Prod.mk.inj hmarks
    obtain ⟨-, rfl⟩ := Prod.mk.inj hrest
    exact Nat.le_refl _

/-- The rest of a line. -/
theorem left_restOfLine {c after : Cursor} (h : restOfLine c = .ok after) :
    after.left ≤ c.left := by
  unfold restOfLine at h
  have hspaces := c.left_skipWhile (· == ' ')
  rw [← skipSpaces] at hspaces
  generalize c.skipSpaces = c at h hspaces
  have hline := c.left_skipWhile (!isLineEnd ·)
  rw [← skipLine] at hline
  dsimp only at h
  obtain ⟨_, -, h⟩ := bind_eq_ok.mp h
  obtain rfl := Except.ok.inj h
  split
  · have hbreak := c.skipLine.left_lineBreak
    omega
  · have hbreak := c.left_lineBreak
    omega

/-- The breaks of the empty lines before a block scalar. -/
theorem length_blockIndentation (fuel deepest : Nat) (c : Cursor) :
    (blockIndentation fuel deepest c).1.length +
      (blockIndentation fuel deepest c).2.2.left ≤ c.left := by
  -- By induction on the fuel: a space or a break is taken at each turn.
  induction fuel generalizing deepest c with
  | zero => simp [blockIndentation]
  | succ fuel ih =>
    rw [blockIndentation]
    dsimp only
    split
    · have hstep := c.left_step
      have hrest := ih (max deepest c.step.column) c.step
      omega
    split
    · have hbreak := c.left_lineBreak
      rcases hfound : c.lineBreak with ⟨found, after⟩
      have hrest := ih deepest after
      rcases hothers : blockIndentation fuel deepest after with ⟨more, deepest', end'⟩
      simp only [hfound, hothers, List.length_append] at hbreak hrest ⊢
      omega
    · simp

/-- The breaks of the empty lines inside a block scalar. -/
theorem length_blockBreaks (indent fuel : Nat) (c : Cursor) :
    (blockBreaks indent fuel c).1.length + (blockBreaks indent fuel c).2.left ≤ c.left := by
  induction fuel generalizing c with
  | zero => simp [blockBreaks]
  | succ fuel ih =>
    rw [blockBreaks]
    have hskip := c.left_skipSpacesTo indent
    generalize c.skipSpacesTo indent = c at hskip ⊢
    dsimp only
    split
    · have hbreak := c.left_lineBreak
      rcases hfound : c.lineBreak with ⟨found, after⟩
      have hrest := ih after
      rcases hothers : blockBreaks indent fuel after with ⟨more, end'⟩
      simp only [hfound, hothers, List.length_append] at hbreak hrest ⊢
      omega
    · simpa using hskip

/-- The lines of a block scalar, behind breaks. -/
theorem length_blockLines (folded : Bool) (indent fuel : Nat) (breaks : List Char) (c : Cursor) :
    (blockLines folded indent fuel breaks c).1.length +
      (blockLines folded indent fuel breaks c).2.1.length +
      (blockLines folded indent fuel breaks c).2.2.1.length +
      (blockLines folded indent fuel breaks c).2.2.2.left ≤ breaks.length + c.left := by
  induction fuel generalizing breaks c with
  | zero => simp [blockLines]
  | succ fuel ih =>
    rw [blockLines]
    split
    rotate_left
    · simp
    have hline := c.left_takeWhile fun x => !isLineEnd x
    rcases htaken : (c.takeWhile fun x => !isLineEnd x) with ⟨line, afterLine⟩
    have hbreak := afterLine.left_lineBreak
    rcases hfound : afterLine.lineBreak with ⟨found, afterBreak⟩
    have hempty := length_blockBreaks indent (afterBreak.rest.length + 1) afterBreak
    rcases hafter : blockBreaks indent (afterBreak.rest.length + 1) afterBreak
      with ⟨after, next⟩
    simp only [htaken, hfound, hafter] at hline hbreak hempty ⊢
    split
    · have hrest := ih after next
      rcases hmore : blockLines folded indent fuel after next with ⟨more, last, tail, end'⟩
      simp only [hmore, List.length_append] at hrest ⊢
      -- what stands between two lines comes from the break
      split
      next hfolds =>
        have hone : found = ['\n'] := by
          simp only [Bool.and_eq_true, beq_iff_eq] at hfolds
          exact hfolds.1.1.2
        rw [hone, List.length_singleton] at hbreak
        split
        · rw [List.length_singleton]
          omega
        · rw [List.length_nil]
          omega
      · omega
    · simp only [List.length_append]
      omega

/-- The lines of a block scalar with as many breaks at the end as are kept. -/
theorem length_chomped (folded : Bool) (indent fuel : Nat) (breaks : List Char) (c : Cursor)
    (chomp : Chomp) :
    ((blockLines folded indent fuel breaks c).1 ++
      match chomp with
      | .strip => []
      | .clip => (blockLines folded indent fuel breaks c).2.1
      | .keep => (blockLines folded indent fuel breaks c).2.1 ++
          (blockLines folded indent fuel breaks c).2.2.1).length +
      (blockLines folded indent fuel breaks c).2.2.2.left ≤ breaks.length + c.left := by
  have hlines := length_blockLines folded indent fuel breaks c
  cases chomp <;> simp only [List.length_append, List.length_nil] <;> omega

/-- **A block scalar** is no longer than what it takes. -/
theorem length_block {folded : Bool} {parent : Int} {c after : Cursor} {text : String}
    (h : block folded parent c = .ok (text, after)) : text.length + after.left ≤ c.left := by
  unfold block at h
  obtain ⟨⟨⟨chomp, increment⟩, afterMarks⟩, hmarks, h⟩ := bind_eq_ok.mp h
  dsimp only at h
  obtain ⟨afterLine, hline, h⟩ := bind_eq_ok.mp h
  have hstart := c.left_step
  have hmarks := left_blockMarks hmarks
  have hline := left_restOfLine hline
  obtain ⟨rfl, rfl⟩ := Prod.mk.inj (Except.ok.inj h)
  rw [String.length_ofList]
  refine Nat.le_trans (length_chomped ..) ?_
  -- The indentation is found out, or it is given.
  cases increment with
  | none =>
    have hbreaks := length_blockIndentation (afterLine.rest.length + 1) 0 afterLine
    rcases hfound : blockIndentation (afterLine.rest.length + 1) 0 afterLine with
      ⟨breaks, deepest, next⟩
    simp only [hfound] at hbreaks ⊢
    omega
  | some increment =>
    have hbreaks := length_blockBreaks ((max (parent + 1) 1).toNat + increment - 1)
      (afterLine.rest.length + 1) afterLine
    dsimp only
    omega

/-! ### Tokens without a text -/

/-- The name of an anchor or alias. -/
theorem left_anchorName {c after : Cursor} {name : String}
    (h : anchorName c = .ok (name, after)) : after.left ≤ c.left := by
  have hstep := c.left_step
  have htaken := c.step.left_takeWhile isNameChar
  unfold anchorName at h
  obtain ⟨_, -, h⟩ := bind_eq_ok.mp h
  obtain ⟨_, -, h⟩ := bind_eq_ok.mp h
  obtain ⟨-, rfl⟩ := Prod.mk.inj (Except.ok.inj h)
  rw [takeWhile] at htaken
  dsimp only at htaken
  omega

/-- A token with a name. -/
theorem left_named {make : String → Token} (hmake : ∀ name, (make name).text? = none)
    {c after : Cursor} {token : Token}
    (h : (anchorName c).map (fun found => (make found.1, found.2)) = .ok (token, after)) :
    token.text? = none ∧ after.left ≤ c.left := by
  obtain ⟨⟨name, cursor⟩, hname, h⟩ := map_eq_ok.mp h
  obtain ⟨rfl, rfl⟩ := Prod.mk.inj h
  exact ⟨hmake _, left_anchorName hname⟩

/-- The text of a tag. -/
theorem left_uri {c after : Cursor} {found : String} (h : uri c = .ok (found, after)) :
    after.left ≤ c.left := by
  unfold uri at h
  obtain ⟨⟨text, rest⟩, -, h⟩ := bind_eq_ok.mp h
  obtain ⟨_, -, h⟩ := bind_eq_ok.mp h
  obtain ⟨-, rfl⟩ := Prod.mk.inj (Except.ok.inj h)
  rw [left_advance]
  omega

/-- The handle of a tag. -/
theorem left_tagHandle {c after : Cursor} {found : String}
    (h : tagHandle c = .ok (found, after)) : after.left ≤ c.left := by
  have hstep := c.left_step
  unfold tagHandle at h
  obtain ⟨_, -, h⟩ := bind_eq_ok.mp h
  split at h
  · obtain ⟨-, rfl⟩ := Prod.mk.inj (Except.ok.inj h)
    omega
  · obtain ⟨_, -, h⟩ := bind_eq_ok.mp h
    obtain ⟨-, rfl⟩ := Prod.mk.inj (Except.ok.inj h)
    rw [left_step, left_advance]
    omega

/-- A tag. -/
theorem left_tag {c after : Cursor} {found : Option String × String}
    (h : tag c = .ok (found, after)) : after.left ≤ c.left := by
  have hstep := c.left_step
  -- a tag ends before a gap
  have hend : ∀ {c₁ : Cursor} {given : Option String × String}, c₁.left ≤ c.left →
      (require (isSpaceOrEnd c₁.peek) >>= fun _ => pure (given, c₁)) = .ok (found, after) →
      after.left ≤ c.left := by
    intro c₁ given hle h
    obtain ⟨_, -, h⟩ := bind_eq_ok.mp h
    obtain ⟨-, rfl⟩ := Prod.mk.inj (Except.ok.inj h)
    exact hle
  unfold tag at h
  split at h
  · obtain ⟨⟨suffix, c₁⟩, huri, h⟩ := bind_eq_ok.mp h
    obtain ⟨_, -, h⟩ := bind_eq_ok.mp h
    have hleft := left_uri huri
    rw [left_advance] at hleft
    exact hend (by rw [left_step]; omega) h
  split at h
  · exact hend (by omega) h
  split at h
  · obtain ⟨⟨handle, c₁⟩, hhandle, h⟩ := bind_eq_ok.mp h
    obtain ⟨⟨suffix, c₂⟩, huri, h⟩ := bind_eq_ok.mp h
    exact hend (Nat.le_trans (left_uri huri) (left_tagHandle hhandle)) h
  · obtain ⟨⟨handle, c₁⟩, hhandle, h⟩ := bind_eq_ok.mp h
    obtain ⟨-, rfl⟩ := Prod.mk.inj (Except.ok.inj hhandle)
    obtain ⟨⟨suffix, c₂⟩, huri, h⟩ := bind_eq_ok.mp h
    have hleft := left_uri huri
    exact hend (by omega) h

/-- A token with a tag. -/
theorem left_tagToken {c after : Cursor} {token : Token}
    (h : (tag c).map (fun found => (Token.tag found.1.1 found.1.2, found.2)) = .ok (token, after)) :
    token.text? = none ∧ after.left ≤ c.left := by
  obtain ⟨⟨found, cursor⟩, htag, h⟩ := map_eq_ok.mp h
  obtain ⟨rfl, rfl⟩ := Prod.mk.inj h
  exact ⟨rfl, left_tag htag⟩

/-- A number of a version. -/
theorem left_versionNumber {c after : Cursor} {n : Nat} (h : versionNumber c = .ok (n, after)) :
    after.left ≤ c.left := by
  unfold versionNumber at h
  obtain ⟨_, -, h⟩ := bind_eq_ok.mp h
  dsimp only at h
  split at h
  · cases h
  · obtain ⟨-, rfl⟩ := Prod.mk.inj (Except.ok.inj h)
    rw [left_advance]
    omega

/-- The version of a document. -/
theorem left_versionDirective {c after : Cursor} {token : Token}
    (h : versionDirective c = .ok (token, after)) :
    token.text? = none ∧ after.left ≤ c.left := by
  have hspaces := c.left_skipWhile (· == ' ')
  unfold versionDirective at h
  obtain ⟨⟨major, c₁⟩, hmajor, h⟩ := bind_eq_ok.mp h
  obtain ⟨_, -, h⟩ := bind_eq_ok.mp h
  obtain ⟨⟨minor, c₂⟩, hminor, h⟩ := bind_eq_ok.mp h
  obtain ⟨_, -, h⟩ := bind_eq_ok.mp h
  obtain ⟨rfl, rfl⟩ := Prod.mk.inj (Except.ok.inj h)
  have hfirst := left_versionNumber hmajor
  have hsecond := left_versionNumber hminor
  rw [left_step] at hsecond
  rw [skipSpaces] at hfirst
  exact ⟨rfl, by omega⟩

/-- A handle and what it stands for. -/
theorem left_handleDirective {c after : Cursor} {token : Token}
    (h : handleDirective c = .ok (token, after)) :
    token.text? = none ∧ after.left ≤ c.left := by
  have hspaces := c.left_skipWhile (· == ' ')
  unfold handleDirective at h
  obtain ⟨⟨handle, c₁⟩, hhandle, h⟩ := bind_eq_ok.mp h
  obtain ⟨_, -, h⟩ := bind_eq_ok.mp h
  obtain ⟨⟨expansion, c₂⟩, hexpansion, h⟩ := bind_eq_ok.mp h
  obtain ⟨_, -, h⟩ := bind_eq_ok.mp h
  obtain ⟨rfl, rfl⟩ := Prod.mk.inj (Except.ok.inj h)
  have hfirst := left_tagHandle hhandle
  have hbetween := c₁.left_skipWhile (· == ' ')
  have hsecond := left_uri hexpansion
  rw [skipSpaces] at hfirst hsecond
  exact ⟨rfl, by omega⟩

/-- A directive. -/
theorem left_directive {c after : Cursor} {token : Token}
    (h : directive c = .ok (token, after)) : token.text? = none ∧ after.left ≤ c.left := by
  have hstep := c.left_step
  have hname := c.step.left_takeWhile isNameChar
  unfold directive at h
  rcases htaken : c.step.takeWhile isNameChar with ⟨name, c₁⟩
  rw [htaken] at h hname
  dsimp only at h hname
  obtain ⟨_, -, h⟩ := bind_eq_ok.mp h
  obtain ⟨_, -, h⟩ := bind_eq_ok.mp h
  -- whatever stands in the directive, the rest of its line follows
  have hline : ∀ {c₂ : Cursor} {found : Token}, found.text? = none ∧
    c₂.left ≤ c₁.left →
      (restOfLine c₂ >>= fun end' => pure (found, end')) = .ok (token, after) →
      token.text? = none ∧ after.left ≤ c.left := by
    intro c₂ found hfound h
    obtain ⟨end', hend, h⟩ := bind_eq_ok.mp h
    obtain ⟨rfl, rfl⟩ := Prod.mk.inj (Except.ok.inj h)
    have hrest := left_restOfLine hend
    exact ⟨hfound.1, by omega⟩
  split at h
  · obtain ⟨⟨found, c₂⟩, hfound, h⟩ := bind_eq_ok.mp h
    exact hline (left_versionDirective hfound) h
  split at h
  · obtain ⟨⟨found, c₂⟩, hfound, h⟩ := bind_eq_ok.mp h
    exact hline (left_handleDirective hfound) h
  · obtain ⟨⟨found, c₂⟩, hfound, h⟩ := bind_eq_ok.mp h
    obtain ⟨rfl, rfl⟩ := Prod.mk.inj (Except.ok.inj hfound)
    exact hline ⟨rfl, left_skipWhile _ _⟩ h

end Lexeme
end PipelineCompiler.Yaml
