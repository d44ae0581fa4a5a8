import PipelineCompiler.Proofs.Yaml.Lexeme

namespace PipelineCompiler.Yaml

/-!
# Where a cursor stands

A cursor that moves over known text stands behind it; its line and column follow from that text.

* `IsInline` — the characters that keep a cursor on its line and take a column;
* `IsPlainBreak` — the line breaks that are read as they are written;
* `Cursor.advance_inline`, `Cursor.index_advance` — behind such characters;
* `Cursor.takeWhile_eq`, `Cursor.lineBreak_eq` — the two ways to move on over known text;
* `Cursor.rest_line`, `Cursor.place_line` — at the start of the text on the next line.
-/

/-- The characters that keep a cursor on its line and take a column. -/
def IsInline (x : Char) : Prop := isBreak x = false ∧ x ≠ '\ufeff'

instance : DecidablePred IsInline := fun _ => inferInstanceAs (Decidable (_ ∧ _))

/-- The line breaks that are read as they are written: all of them but the control that ends a
    line, and the carriage return. -/
def IsPlainBreak (x : Char) : Prop := x = '\n' ∨ x = '\u2028' ∨ x = '\u2029'

/-- Such a character is a line break. -/
theorem IsPlainBreak.isBreak {x : Char} (h : IsPlainBreak x) : isBreak x = true := by
  rcases h with rfl | rfl | rfl <;> rfl

namespace Cursor

variable (c : Cursor)

/-! ### The next characters -/

/-- The next character of a text that is known. -/
theorem peek_cons {x : Char} {tail : List Char} (h : c.rest = x :: tail) : c.peek = x := by
  rw [peek, ahead, h, List.getD_cons_zero]

/-- The character behind the next one. -/
theorem ahead_one {x y : Char} {tail : List Char} (h : c.rest = x :: y :: tail) :
    c.ahead 1 = y := by
  rw [ahead, h, List.getD_cons_succ, List.getD_cons_zero]

/-- Where nothing is left, the next character is none that a text has. -/
theorem peek_nil (h : c.rest = []) : c.peek = '\x00' := by
  rw [peek, ahead, h, List.getD_nil]

/-! ### Moving on -/

/-- Moving on in two parts. -/
theorem advance_add (m n : Nat) : c.advance (m + n) = (c.advance m).advance n := by
  induction m generalizing c with
  | zero => rw [Nat.zero_add, advance]
  | succ m ih => rw [Nat.succ_add, advance, ih, advance]

/-- Moving on by a step first. -/
theorem step_advance (n : Nat) : c.step.advance n = c.advance (n + 1) := rfl

/-- Moving behind a text. -/
theorem rest_append {xs tail : List Char} (h : c.rest = xs ++ tail) :
    (c.advance xs.length).rest = tail := by
  rw [rest_advance, h, List.drop_left]

/-- A step takes one character more to be behind. -/
theorem index_step (h : c.rest ≠ []) : c.step.index = c.index + 1 := by
  unfold step
  split
  next hnil => exact absurd hnil h
  next =>
    dsimp only
    split
    · rfl
    · split <;> rfl

/-- So many steps take as many. -/
theorem index_advance {n : Nat} (h : n ≤ c.rest.length) : (c.advance n).index = c.index + n := by
  induction n generalizing c with
  | zero => rfl
  | succ n ih =>
    have hne : c.rest ≠ [] := List.length_pos_iff.mp (by omega)
    rw [advance, ih, index_step c hne]
    · omega
    · rw [rest_step, List.length_tail]
      omega

/-- No step leads to an earlier line. -/
theorem line_le_step : c.line ≤ c.step.line := by
  unfold step
  split
  · exact Nat.le_refl _
  · dsimp only
    split
    · exact Nat.le_succ _
    · split <;> exact Nat.le_refl _

/-- Neither do many. -/
theorem line_le_advance (n : Nat) : c.line ≤ (c.advance n).line := by
  induction n generalizing c with
  | zero => exact Nat.le_refl _
  | succ n ih => exact Nat.le_trans c.line_le_step (ih c.step)

variable {c}

/-- A step over a character that keeps to its line. -/
theorem step_inline {x : Char} {tail : List Char} (h : c.rest = x :: tail) (hx : IsInline x) :
    c.step.line = c.line ∧ c.step.column = c.column + 1 := by
  have hmark : (x == '\ufeff') = false := beq_eq_false_iff_ne.mpr hx.2
  unfold step
  rw [h]
  simp [hx.1, hmark]

/-- A step over a line feed. -/
theorem step_lineFeed {tail : List Char} (h : c.rest = '\n' :: tail) :
    c.step.line = c.line + 1 ∧ c.step.column = 0 := by
  unfold step
  rw [h]
  exact ⟨rfl, rfl⟩

/-- **Characters that keep to their line** move a cursor on along it. -/
theorem advance_inline {xs tail : List Char} (h : c.rest = xs ++ tail)
    (hxs : ∀ x ∈ xs, IsInline x) :
    (c.advance xs.length).line = c.line ∧
    (c.advance xs.length).column = c.column + xs.length := by
  induction xs generalizing c with
  | nil => exact ⟨rfl, rfl⟩
  | cons x xs ih =>
    obtain ⟨hline, hcolumn⟩ := step_inline h (hxs x List.mem_cons_self)
    have hrest : c.step.rest = xs ++ tail := by
      rw [rest_step, h]
      rfl
    obtain ⟨hline', hcolumn'⟩ := ih hrest fun y hy => hxs y (List.mem_cons_of_mem _ hy)
    rw [List.length_cons, advance, hline', hcolumn', hline, hcolumn]
    exact ⟨rfl, by omega⟩

/-- Spaces keep to their line. -/
theorem isInline_space {x : Char} {n : Nat} (h : x ∈ List.replicate n ' ') : IsInline x := by
  rw [List.eq_of_mem_replicate h]
  exact ⟨by decide, by decide⟩

/-- The start of the text on the next line, behind its indentation. -/
theorem rest_line {k : Nat} {tail : List Char}
    (h : c.rest = '\n' :: (List.replicate k ' ' ++ tail)) : (c.advance (1 + k)).rest = tail := by
  rw [rest_advance, h, Nat.add_comm, List.drop_succ_cons,
    List.drop_left' (List.length_replicate ..)]

/-- Its place. -/
theorem place_line {k : Nat} {tail : List Char}
    (h : c.rest = '\n' :: (List.replicate k ' ' ++ tail)) :
    (c.advance (1 + k)).line = c.line + 1 ∧ (c.advance (1 + k)).column = k := by
  have hrest : c.step.rest = List.replicate k ' ' ++ tail := by
    rw [rest_step, h]
    rfl
  obtain ⟨hline, hcolumn⟩ := step_lineFeed h
  obtain ⟨hline', hcolumn'⟩ := advance_inline hrest fun x hx => isInline_space hx
  rw [List.length_replicate] at hline' hcolumn'
  rw [advance_add, advance, advance, hline', hcolumn', hline, hcolumn]
  exact ⟨rfl, by omega⟩

/-! ### Taking what is known -/

/-- The characters of a class that another one ends. -/
theorem takeWhile_prefix {p : Char → Bool} {xs tail : List Char} (hxs : ∀ x ∈ xs, p x = true)
    (htail : ∀ x ∈ tail.head?, p x = false) : (xs ++ tail).takeWhile p = xs := by
  rw [List.takeWhile_append_of_pos hxs]
  cases tail with
  | nil => exact List.append_nil xs
  | cons x rest =>
    rw [List.takeWhile_cons_of_neg (Bool.eq_false_iff.mp (htail x rfl)), List.append_nil]

/-- **What is taken** are the characters of a class that another one ends. -/
theorem takeWhile_eq {p : Char → Bool} {xs tail : List Char} (h : c.rest = xs ++ tail)
    (hxs : ∀ x ∈ xs, p x = true) (htail : ∀ x ∈ tail.head?, p x = false) :
    c.takeWhile p = (xs, c.advance xs.length) := by
  rw [takeWhile, h, takeWhile_prefix hxs htail]

/-- What is skipped are they as well. -/
theorem skipWhile_eq {p : Char → Bool} {xs tail : List Char} (h : c.rest = xs ++ tail)
    (hxs : ∀ x ∈ xs, p x = true) (htail : ∀ x ∈ tail.head?, p x = false) :
    c.skipWhile p = c.advance xs.length := by
  rw [skipWhile, takeWhile_eq h hxs htail]

/-- Spaces that another character ends. -/
theorem skipSpaces_eq {n : Nat} {tail : List Char} (h : c.rest = List.replicate n ' ' ++ tail)
    (htail : ∀ x ∈ tail.head?, x ≠ ' ') : c.skipSpaces = c.advance n := by
  have hspaces : ∀ x ∈ List.replicate n ' ', (x == ' ') = true := fun x hx => by
    rw [List.eq_of_mem_replicate hx]
    rfl
  have hskip := skipWhile_eq h hspaces fun x hx => beq_eq_false_iff_ne.mpr (htail x hx)
  rwa [List.length_replicate] at hskip

/-- No spaces. -/
theorem skipSpaces_none (h : c.peek ≠ ' ') : c.skipSpaces = c := by
  refine skipSpaces_eq (show c.rest = List.replicate 0 ' ' ++ c.rest from rfl) fun x hx heq => h ?_
  rw [peek, ahead]
  cases hrest : c.rest with
  | nil =>
    rw [hrest] at hx
    cases hx
  | cons y rest =>
    rw [hrest] at hx
    rw [List.getD_cons_zero, ← heq]
    exact Option.some.inj hx

/-- **Such a line break** is read as itself. -/
theorem lineBreak_eq {x : Char} {tail : List Char} (h : c.rest = x :: tail)
    (hx : IsPlainBreak x) : c.lineBreak = ([x], c.step) := by
  rw [lineBreak, c.peek_cons h]
  rcases hx with rfl | rfl | rfl <;> simp

/-- Whether a mark of a document stands here depends on what is left. -/
theorem atMark_eq_false {mark : Char} (h : ∀ rest, c.rest ≠ mark :: rest) :
    c.atMark mark = false := by
  rw [atMark, Bool.and_eq_false_iff]
  left
  cases hrest : c.rest with
  | nil => rfl
  | cons x rest =>
    have hx : x ≠ mark := fun heq => h rest (heq ▸ hrest)
    rw [List.take_succ_cons]
    exact beq_eq_false_iff_ne.mpr fun heq => hx (List.cons.inj heq).1

/-- Where a space or a line break stands, there is no mark of a document. -/
theorem atDocumentMark_eq_false {x : Char} {tail : List Char} (h : c.rest = x :: tail)
    (hdash : x ≠ '-') (hdot : x ≠ '.') : c.atDocumentMark = false := by
  have hmark : ∀ mark, x ≠ mark → c.atMark mark = false := fun mark hne =>
    atMark_eq_false fun rest hrest => hne (List.cons.inj (h.symm.trans hrest)).1
  rw [atDocumentMark, hmark '-' hdash, hmark '.' hdot]
  rfl

end Cursor
end PipelineCompiler.Yaml
