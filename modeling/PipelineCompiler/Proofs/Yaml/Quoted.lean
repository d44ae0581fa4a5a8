import Mathlib.Data.List.Chain
import PipelineCompiler.Proofs.Number.Characters
import PipelineCompiler.Proofs.Yaml.Cursor
import PipelineCompiler.Yaml.Writer

namespace PipelineCompiler.Yaml

/-!
# Quoted scalars are read back

A text between quotes is read piece by piece: runs of spaces, runs of line breaks, doubled quotes
and escapes, and all other characters one by one.

* `exists_run` — a text starts with a run of a class;
* `Scalar.Fits` — the texts that single quotes keep: they are shown, hold no next-line control,
  and have no space beside a line break;
* `Lexeme.quoted_single` — such a text is read back from single quotes;
* `Lexeme.escape_doubleChars` — every character is read back from its escape;
* `Lexeme.quoted_double` — every text is read back from double quotes.
-/

/-- A text starts with a run of a class, which may be empty. -/
theorem exists_run (p : Char → Bool) (cs : List Char) : ∃ run others, cs = run ++ others ∧
    (∀ c ∈ run, p c = true) ∧ ∀ c ∈ others.head?, p c = false := by
  refine ⟨cs.takeWhile p, cs.dropWhile p, List.takeWhile_append_dropWhile.symm,
    List.all_eq_true.mp List.all_takeWhile, fun c hc => ?_⟩
  have hhead := List.head?_dropWhile_not p cs
  rw [hc] at hhead
  exact hhead

/-- A text that is not empty has a last character. -/
theorem exists_getLast? {x : Char} (cs : List Char) : ∃ last, (x :: cs).getLast? = some last :=
  ⟨_, List.getLast?_eq_some_getLast (List.cons_ne_nil x cs)⟩

namespace Lexeme

open Cursor

variable {double : Bool} {c : Cursor}

/-! ### Pieces -/

/-- A text that starts with a character that is no blank and ends no line. -/
def IsSolid (cs : List Char) : Prop :=
  ∃ x rest, cs = x :: rest ∧ x ≠ ' ' ∧ x ≠ '\t' ∧ isBreak x = false

/-- A piece is read, and then the others. -/
theorem quotedFrom_piece {fuel m n : Nat} {piece others : List Char}
    (hopen : (c.peek == quoteMark double && !(!double && c.ahead 1 == '\x27')) = false)
    (hpiece : quotedPiece double c = .ok (piece, c.advance m))
    (hothers : quotedFrom double fuel (c.advance m) = .ok (others, (c.advance m).advance n)) :
    quotedFrom double (fuel + 1) c = .ok (piece ++ others, c.advance (m + n)) := by
  rw [quotedFrom_succ, hopen, if_neg Bool.false_ne_true, hpiece]
  show (quotedFrom double fuel (c.advance m) >>= fun more => .ok (piece ++ more.1, more.2)) = _
  rw [hothers, advance_add]
  rfl

/-- What does not start with the quote goes on. -/
theorem open_of_ne {x : Char} {tail : List Char} (h : c.rest = x :: tail)
    (hx : x ≠ quoteMark double) :
    (c.peek == quoteMark double && !(!double && c.ahead 1 == '\x27')) = false := by
  rw [c.peek_cons h, beq_eq_false_iff_ne.mpr hx, Bool.false_and]

/-- A character of its own. -/
theorem quotedPiece_char {x : Char} {tail : List Char} (h : c.rest = x :: tail)
    (hquote : x ≠ quoteMark double) (hslash : double = true → x ≠ '\\')
    (hgap : isGap x = false) :
    quotedPiece double c = .ok ([x], c.advance 1) := by
  have hnoSlash : (double && x == '\\') = false := by
    cases double with
    | false => rfl
    | true => exact beq_eq_false_iff_ne.mpr (hslash rfl)
  rw [quotedPiece, c.peek_cons h, beq_eq_false_iff_ne.mpr hquote, if_neg Bool.false_ne_true,
    hnoSlash, if_neg Bool.false_ne_true, hgap, if_neg Bool.false_ne_true]
  rfl

/-- Blanks and line breaks. -/
theorem quotedPiece_gap {x : Char} {tail : List Char} (h : c.rest = x :: tail)
    (hquote : x ≠ quoteMark double) (hslash : x ≠ '\\') (hgap : isGap x = true) :
    quotedPiece double c = quotedGap c := by
  rw [quotedPiece, c.peek_cons h, beq_eq_false_iff_ne.mpr hquote, if_neg Bool.false_ne_true,
    beq_eq_false_iff_ne.mpr hslash, Bool.and_false, if_neg Bool.false_ne_true, if_pos hgap]

/-- No blank ends in front of a solid text. -/
theorem IsSolid.head {tail : List Char} (h : IsSolid tail) :
    ∀ x ∈ tail.head?, (x == ' ' || x == '\t') = false := by
  obtain ⟨x, rest, rfl, hspace, htab, -⟩ := h
  intro y hy
  obtain rfl := Option.some.inj hy
  rw [beq_eq_false_iff_ne.mpr hspace, beq_eq_false_iff_ne.mpr htab]
  rfl

/-- Something is there. -/
theorem IsSolid.not_atEnd {tail : List Char} (h : IsSolid tail) (hc : c.rest = tail) :
    c.atEnd = false := by
  obtain ⟨x, rest, rfl, -⟩ := h
  rw [atEnd, hc]
  rfl

/-- No line break is there. -/
theorem IsSolid.not_isBreak {tail : List Char} (h : IsSolid tail) (hc : c.rest = tail) :
    isBreak c.peek = false := by
  obtain ⟨x, rest, rfl, -, -, hbreak⟩ := h
  rw [c.peek_cons hc]
  exact hbreak

/-- A run of spaces. -/
theorem quotedGap_spaces {spaces tail : List Char} (h : c.rest = spaces ++ tail)
    (hspaces : ∀ x ∈ spaces, x = ' ') (htail : IsSolid tail) :
    quotedGap c = .ok (spaces, c.advance spaces.length) := by
  have hblanks : ∀ x ∈ spaces, (x == ' ' || x == '\t') = true := fun x hx => by
    rw [hspaces x hx]
    rfl
  have hrest := c.rest_append h
  rw [quotedGap, takeWhile_eq h hblanks htail.head]
  dsimp only
  rw [htail.not_atEnd hrest, htail.not_isBreak hrest]
  rfl

/-- The breaks after the first, and the indentation behind them. -/
theorem quotedBreaks_eq {breaks tail : List Char} {k fuel : Nat} (hk : 0 < k)
    (h : c.rest = breaks ++ (List.replicate k ' ' ++ tail))
    (hbreaks : ∀ x ∈ breaks, IsPlainBreak x)
    (htail : IsSolid tail) (hfuel : breaks.length < fuel) :
    quotedBreaks fuel c = .ok (breaks, c.advance (breaks.length + k)) := by
  -- By induction on the breaks that are left; the last one is followed by the indentation.
  induction breaks generalizing c fuel with
  | nil =>
    obtain ⟨fuel, rfl⟩ := Nat.exists_eq_add_of_lt hfuel
    obtain ⟨k, rfl⟩ := Nat.exists_eq_succ_of_ne_zero hk.ne'
    have hblanks : ∀ x ∈ List.replicate (k + 1) ' ', (x == ' ' || x == '\t') = true :=
      fun x hx => by
        rw [List.eq_of_mem_replicate hx]
        rfl
    rw [List.nil_append] at h
    have hmark : c.atDocumentMark = false :=
      atDocumentMark_eq_false (h.trans rfl) (show ' ' ≠ '-' by decide) (by decide)
    have hrest := c.rest_append h
    rw [quotedBreaks, hmark, skipWhile_eq h hblanks htail.head]
    dsimp only
    rw [htail.not_isBreak hrest, List.length_replicate, List.length_nil, Nat.zero_add,
      Nat.zero_add]
    rfl
  | cons x breaks ih =>
    obtain ⟨fuel, rfl⟩ := Nat.exists_eq_add_of_lt hfuel
    have hx := hbreaks x List.mem_cons_self
    have hrest : c.step.rest = breaks ++ (List.replicate k ' ' ++ tail) := by
      rw [rest_step, h]
      rfl
    have hmark : c.atDocumentMark = false :=
      atDocumentMark_eq_false h (by rcases hx with rfl | rfl | rfl <;> decide)
        (by rcases hx with rfl | rfl | rfl <;> decide)
    have hskip : c.skipWhile (fun x => x == ' ' || x == '\t') = c :=
      skipWhile_eq (show c.rest = [] ++ _ from h) (List.forall_mem_nil _) fun y hy => by
        obtain rfl := Option.some.inj hy
        rcases hx with rfl | rfl | rfl <;> rfl
    have hothers : quotedBreaks (breaks.length + fuel + 1) c.step =
        .ok (breaks, c.step.advance (breaks.length + k)) :=
      ih hrest (fun y hy => hbreaks y (List.mem_cons_of_mem _ hy)) (by omega)
    rw [List.length_cons, quotedBreaks, hmark, hskip]
    dsimp only
    rw [c.peek_cons h, if_pos hx.isBreak, lineBreak_eq h hx]
    show (quotedBreaks (breaks.length + 1 + fuel) c.step >>= fun more =>
      .ok ([x] ++ more.1, more.2)) = _
    rw [show breaks.length + 1 + fuel = breaks.length + fuel + 1 by omega, hothers,
      show breaks.length + 1 + k = breaks.length + k + 1 by omega]
    rfl

/-- The characters in which a run of line breaks is written: a line feed comes twice when it is the
    first. -/
def breakChars (x : Char) (breaks : List Char) : List Char :=
  (if x = '\n' then ['\n'] else []) ++ x :: breaks

/-- **A run of line breaks**, with the indentation behind it. -/
theorem quotedGap_breaks {x : Char} {breaks tail : List Char} {k : Nat} (hk : 0 < k)
    (h : c.rest = breakChars x breaks ++ (List.replicate k ' ' ++ tail))
    (hbreaks : ∀ y ∈ x :: breaks, IsPlainBreak y) (htail : IsSolid tail) :
    quotedGap c = .ok (x :: breaks, c.advance ((breakChars x breaks).length + k)) := by
  have hx := hbreaks x List.mem_cons_self
  -- the first character in the text, and those that are read behind it
  obtain ⟨more, hchars, hmore, hfolds⟩ : ∃ more, breakChars x breaks = x :: more ∧
      (∀ y ∈ more, IsPlainBreak y) ∧
      (if [x] != ['\n'] then x :: more else more) = x :: breaks ∧ (x = '\n' → more ≠ []) := by
    by_cases hfeed : x = '\n'
    · refine ⟨x :: breaks, ?_, hbreaks, ?_, fun _ => List.cons_ne_nil _ _⟩
      · rw [breakChars, if_pos hfeed, hfeed]
        rfl
      · rw [hfeed]
        rfl
    · refine ⟨breaks, ?_, fun y hy => hbreaks y (List.mem_cons_of_mem _ hy), ?_,
        fun heq => absurd heq hfeed⟩
      · rw [breakChars, if_neg hfeed]
        rfl
      · rw [if_pos (bne_iff_ne.mpr fun heq => hfeed (List.cons.inj heq).1)]
  rw [hchars] at h
  have hfirst : c.takeWhile (fun x => x == ' ' || x == '\t') = ([], c) :=
    takeWhile_eq (show c.rest = [] ++ _ from h) (List.forall_mem_nil _) fun y hy => by
      obtain rfl := Option.some.inj hy
      rcases hx with rfl | rfl | rfl <;> rfl
  have hend : c.atEnd = false := by
    rw [atEnd, h]
    rfl
  have hrest : c.step.rest = more ++ (List.replicate k ' ' ++ tail) := by
    rw [rest_step, h]
    rfl
  have hothers : quotedBreaks (c.step.rest.length + 1) c.step =
      .ok (more, c.step.advance (more.length + k)) :=
    quotedBreaks_eq hk hrest hmore htail (by rw [hrest, List.length_append]; omega)
  rw [quotedGap, hfirst, hchars, List.length_cons, Nat.add_right_comm]
  dsimp only
  rw [hend, c.peek_cons h, hx.isBreak, lineBreak_eq h hx, if_pos rfl]
  show (quotedBreaks (c.step.rest.length + 1) c.step >>= _) = _
  rw [hothers]
  dsimp only [bind, Except.bind]
  rw [← hfolds.1]
  by_cases hfeed : x = '\n'
  · rw [hfeed]
    have hempty : more.isEmpty = false := List.isEmpty_eq_false_iff.mpr (hfolds.2 hfeed)
    simp [hempty, step_advance, pure, Except.pure]
  · have hne : ([x] != ['\n']) = true := bne_iff_ne.mpr fun heq => hfeed (List.cons.inj heq).1
    rw [if_pos hne, if_pos hne]
    rfl

end Lexeme

namespace Scalar

/-! ### Texts that single quotes keep -/

/-- Characters that may be neighbours between single quotes: no space is beside a line break. -/
def Apart (a b : Char) : Prop :=
  ((a == ' ' && isWrittenBreak b) || (isWrittenBreak a && b == ' ')) = false

/-- The texts that single quotes keep. -/
structure Fits (cs : List Char) : Prop where
  shown : ∀ c ∈ cs, isShown c = true
  noControl : '\x85' ∉ cs
  apart : cs.IsChain Apart

/-- No two neighbours satisfy a condition. -/
theorem hasNeighbours_eq_false {p : Char → Char → Bool} {cs : List Char} :
    hasNeighbours p cs = false ↔ cs.IsChain fun a b => p a b = false := by
  induction cs with
  | nil => exact ⟨fun _ => .nil, fun _ => rfl⟩
  | cons a rest ih =>
    cases rest with
    | nil => exact ⟨fun _ => .singleton a, fun _ => rfl⟩
    | cons b rest =>
      rw [List.isChain_cons_cons, ← ih]
      exact Bool.or_eq_false_iff

/-- A text that may stand between single quotes, without the control. -/
theorem fits_of_allowsSingle {cs : List Char} (h : allowsSingle cs = true)
    (hcontrol : '\x85' ∉ cs) :
    Fits cs := by
  rw [allowsSingle, Bool.and_eq_true, Bool.not_eq_true', hasNeighbours_eq_false] at h
  exact ⟨List.all_eq_true.mp h.1, hcontrol, h.2⟩

/-- What follows a part of such a text. -/
theorem Fits.right {xs ys : List Char} (h : Fits (xs ++ ys)) : Fits ys :=
  ⟨fun c hc => h.shown c (List.mem_append_right xs hc),
    fun hc => h.noControl (List.mem_append_right xs hc), (List.isChain_append.mp h.apart).2.1⟩

/-- A shown character is none of those that are not. -/
theorem ne_of_shown {c x : Char} (h : isShown c = true) (hx : isShown x = false) : c ≠ x :=
  fun heq => Bool.false_ne_true (hx.symm.trans (heq ▸ h))

/-- The breaks in such a text. -/
theorem Fits.plainBreak {cs : List Char} (h : Fits cs) {c : Char} (hc : c ∈ cs)
    (hbreak : isWrittenBreak c = true) : IsPlainBreak c := by
  simp only [isWrittenBreak, Bool.or_eq_true, beq_iff_eq] at hbreak
  rcases hbreak with ((rfl | rfl) | rfl) | rfl
  · exact .inl rfl
  · exact absurd hc h.noControl
  · exact .inr (.inl rfl)
  · exact .inr (.inr rfl)

/-- The characters that are neither spaces nor breaks. -/
theorem not_isGap_of_shown {c : Char} (h : isShown c = true) (hspace : c ≠ ' ')
    (hbreak : isWrittenBreak c = false) : isGap c = false := by
  have htab : c ≠ '\t' := ne_of_shown h (by decide)
  have hreturn : c ≠ '\r' := ne_of_shown h (by decide)
  have hend : c ≠ '\x00' := ne_of_shown h (by decide)
  simp only [isWrittenBreak, Bool.or_eq_false_iff] at hbreak
  simp only [isGap, isSpaceOrEnd, isLineEnd, isBreak, Bool.or_eq_false_iff, beq_eq_false_iff_ne]
  simp only [beq_eq_false_iff_ne] at hbreak
  exact ⟨htab, hspace, hend, ⟨⟨⟨⟨hreturn, hbreak.1.1.1⟩, hbreak.1.1.2⟩, hbreak.1.2⟩,
    hbreak.2⟩⟩

/-- A character that is no gap is solid. -/
theorem isSolid_of_not_isGap {x : Char} {rest : List Char} (h : isGap x = false) :
    Lexeme.IsSolid (x :: rest) := by
  simp only [isGap, isSpaceOrEnd, isLineEnd, Bool.or_eq_false_iff, beq_eq_false_iff_ne] at h
  exact ⟨x, rest, rfl, h.2.1, h.1, h.2.2.2⟩

/-! ### Single quotes -/

/-- A character between single quotes. -/
def singleChar (c : Char) : List Char := if c = '\x27' then ['\x27', '\x27'] else [c]

/-- A character that breaks no line is written by itself. -/
theorem singleChars_cons (indent : Nat) {x : Char} (h : isWrittenBreak x = false)
    (rest : List Char) :
    singleChars indent false (x :: rest) = singleChar x ++ singleChars indent false rest := by
  rw [singleChars, h, if_neg Bool.false_ne_true, if_neg Bool.false_ne_true, List.nil_append,
    singleChar]
  simp only [beq_iff_eq]

/-- Breaks that go on are written by themselves, and the text behind them at the indentation. -/
theorem singleChars_breaks {indent : Nat} {breaks others : List Char}
    (hbreaks : ∀ x ∈ breaks, isWrittenBreak x = true)
    (hothers : ∀ x ∈ others.head?, isWrittenBreak x = false) :
    singleChars indent true (breaks ++ others) =
      breaks ++ (List.replicate indent ' ' ++ singleChars indent false others) := by
  -- By induction on the breaks that go on.
  induction breaks with
  | nil =>
    cases others with
    | nil => simp [singleChars]
    | cons x rest =>
      have hx := hothers x rfl
      rw [singleChars_cons _ hx, List.nil_append, List.nil_append, singleChars, hx,
        if_neg Bool.false_ne_true, if_pos rfl, singleChar]
      simp only [beq_iff_eq, List.append_assoc]
  | cons x breaks ih =>
    have hx := hbreaks x List.mem_cons_self
    rw [List.cons_append, singleChars, if_pos hx, Bool.not_true, Bool.and_false,
      if_neg Bool.false_ne_true, List.nil_append, List.cons_append,
      ih fun y hy => hbreaks y (List.mem_cons_of_mem _ hy)]

/-- A run of breaks is written, and then the text behind it at the indentation. -/
theorem singleChars_run {indent : Nat} {x : Char} {breaks others : List Char}
    (hbreaks : ∀ y ∈ x :: breaks, isWrittenBreak y = true)
    (hothers : ∀ y ∈ others.head?, isWrittenBreak y = false) :
    singleChars indent false (x :: breaks ++ others) = Lexeme.breakChars x breaks ++
      (List.replicate indent ' ' ++ singleChars indent false others) := by
  rw [List.cons_append, singleChars, if_pos (hbreaks x List.mem_cons_self),
    singleChars_breaks (fun y hy => hbreaks y (List.mem_cons_of_mem _ hy)) hothers,
    Lexeme.breakChars, List.append_assoc, List.cons_append]
  simp only [Bool.not_false, Bool.and_true, beq_iff_eq]

/-- A run of spaces is written as it is. -/
theorem singleChars_spaces (indent : Nat) {spaces : List Char} (hspaces : ∀ x ∈ spaces, x = ' ')
    (others : List Char) :
    singleChars indent false (spaces ++ others) = spaces ++ singleChars indent false others := by
  induction spaces with
  | nil => rfl
  | cons x spaces ih =>
    have hx := hspaces x List.mem_cons_self
    rw [List.cons_append, singleChars_cons _ (by rw [hx]; rfl),
      ih fun y hy => hspaces y (List.mem_cons_of_mem _ hy), hx]
    rfl

/-- What is written behind a run is solid. -/
theorem Fits.isSolid {cs : List Char} (h : Fits cs)
    (hhead : ∀ x ∈ cs.head?, x ≠ ' ' ∧ isWrittenBreak x = false) (indent : Nat)
    (tail : List Char) :
    Lexeme.IsSolid (singleChars indent false cs ++ '\x27' :: tail) := by
  cases cs with
  | nil => exact isSolid_of_not_isGap (by decide)
  | cons x rest =>
    obtain ⟨hspace, hbreak⟩ := hhead x rfl
    rw [singleChars_cons _ hbreak, singleChar]
    split
    · exact isSolid_of_not_isGap (by decide)
    · exact isSolid_of_not_isGap
        (not_isGap_of_shown (h.shown x List.mem_cons_self) hspace hbreak)

/-- Behind a run of spaces, or of breaks, stands neither of the two: they are never mixed. -/
theorem Fits.behind_run {x : Char} {run others : List Char} (h : Fits ((x :: run) ++ others))
    (hrun : (∀ y ∈ x :: run, y = ' ') ∧ (∀ y ∈ others.head?, y ≠ ' ') ∨
      (∀ y ∈ x :: run, isWrittenBreak y = true) ∧
        ∀ y ∈ others.head?, isWrittenBreak y = false) :
    ∀ y ∈ others.head?, y ≠ ' ' ∧ isWrittenBreak y = false := by
  intro y hy
  obtain ⟨last, hlast⟩ := exists_getLast? (x := x) run
  have hapart := (List.isChain_append.mp h.apart).2.2 last hlast y hy
  rcases hrun with ⟨hspaces, hnext⟩ | ⟨hbreaks, hnext⟩
  · rw [Apart, hspaces last (List.mem_of_getLast? hlast)] at hapart
    exact ⟨hnext y hy, (Bool.or_eq_false_iff.mp hapart).1⟩
  · refine ⟨fun heq => ?_, hnext y hy⟩
    rw [Apart, hbreaks last (List.mem_of_getLast? hlast), heq] at hapart
    cases (Bool.or_eq_false_iff.mp hapart).2

open Cursor Lexeme in
/-- A run of spaces is read as a gap. -/
theorem Fits.quotedPiece_spaces {x : Char} {run others : List Char}
    (h : Fits ((x :: run) ++ others)) (hspaces : ∀ y ∈ x :: run, y = ' ')
    (hnext : ∀ y ∈ others.head?, y ≠ ' ') {indent : Nat} {c : Cursor} {tail : List Char}
    (hc : c.rest = (x :: run) ++ (singleChars indent false others ++ '\x27' :: tail)) :
    quotedPiece false c = .ok (x :: run, c.advance (x :: run).length) := by
  have hspace : x = ' ' := hspaces x List.mem_cons_self
  have hhead := h.behind_run (.inl ⟨hspaces, hnext⟩)
  rw [quotedPiece_gap hc (hspace ▸ by decide) (hspace ▸ by decide) (hspace ▸ rfl)]
  exact quotedGap_spaces hc hspaces (h.right.isSolid hhead indent tail)

open Cursor Lexeme in
/-- So is a run of breaks with the spaces that are written behind it. -/
theorem Fits.quotedPiece_breaks {x : Char} {run others : List Char}
    (h : Fits ((x :: run) ++ others)) (hbreaks : ∀ y ∈ x :: run, isWrittenBreak y = true)
    (hothers : ∀ y ∈ others.head?, isWrittenBreak y = false) {indent : Nat}
    (hindent : 0 < indent) {c : Cursor} {tail : List Char}
    (hc : c.rest = breakChars x run ++
      (List.replicate indent ' ' ++ (singleChars indent false others ++ '\x27' :: tail))) :
    (c.peek == quoteMark false && !(!false && c.ahead 1 == '\x27')) = false ∧
      quotedPiece false c =
        .ok (x :: run, c.advance (breakChars x run ++ List.replicate indent ' ').length) := by
  have hhead := h.behind_run (.inr ⟨hbreaks, hothers⟩)
  have hplain : ∀ y ∈ x :: run, IsPlainBreak y := fun y hy =>
    h.plainBreak (List.mem_append_left _ hy) (hbreaks y hy)
  obtain ⟨more, hmore⟩ : ∃ more, c.rest = x :: more := by
    rw [hc, breakChars]
    split
    next heq => exact ⟨_, by rw [heq]; rfl⟩
    next => exact ⟨_, rfl⟩
  have hquote : x ≠ quoteMark false := by
    rcases hplain x List.mem_cons_self with rfl | rfl | rfl <;> decide
  have hslash : x ≠ '\\' := by
    rcases hplain x List.mem_cons_self with rfl | rfl | rfl <;> decide
  have hgap : isGap x = true := by
    rcases hplain x List.mem_cons_self with rfl | rfl | rfl <;> decide
  refine ⟨open_of_ne hmore hquote, ?_⟩
  rw [quotedPiece_gap hmore hquote hslash hgap, List.length_append, List.length_replicate]
  exact quotedGap_breaks hindent hc hplain (h.right.isSolid hhead indent tail)

open Cursor Lexeme in
/-- **Texts are read back from single quotes**, up to the closing quote. -/
theorem Fits.quotedFrom {cs : List Char} (h : Fits cs) {indent : Nat} (hindent : 0 < indent)
    {c : Cursor} {tail : List Char}
    (hc : c.rest = singleChars indent false cs ++ '\x27' :: tail)
    (htail : tail.head? ≠ some '\x27') {fuel : Nat} (hfuel : cs.length < fuel) :
    Lexeme.quotedFrom false fuel c =
      .ok (cs, c.advance ((singleChars indent false cs).length + 1)) := by
  induction hn : cs.length using Nat.strong_induction_on generalizing cs c fuel with
  | _ n ih =>
  obtain ⟨fuel, rfl⟩ := Nat.exists_eq_succ_of_ne_zero (Nat.ne_zero_of_lt hfuel)
  -- behind the first piece the induction hypothesis goes on
  have hgo : ∀ {piece written others : List Char}, cs = piece ++ others → piece ≠ [] →
      singleChars indent false cs = written ++ singleChars indent false others →
      (c.peek == quoteMark false && !(!false && c.ahead 1 == '\x27')) = false →
      quotedPiece false c = .ok (piece, c.advance written.length) →
      Lexeme.quotedFrom false (fuel + 1) c =
        .ok (cs, c.advance ((singleChars indent false cs).length + 1)) := by
    intro piece written others hsplit hpiece hwritten hopen hread
    have hlength : 0 < piece.length := List.length_pos_iff.mpr hpiece
    rw [hwritten, List.append_assoc] at hc
    have hrest := c.rest_append hc
    rw [hsplit, List.length_append] at hn hfuel
    rw [hwritten, List.length_append, Nat.add_assoc, hsplit]
    exact quotedFrom_piece hopen hread
      (ih others.length (by omega) (hsplit ▸ h).right hrest (by omega) rfl)
  cases cs with
  | nil =>
    have hnext : c.ahead 1 ≠ '\x27' := by
      rw [ahead, hc, singleChars, if_neg Bool.false_ne_true, List.nil_append, List.getD_cons_succ]
      cases tail with
      | nil => decide
      | cons y tail => exact fun heq => htail (congrArg some heq)
    have hclose : (c.peek == quoteMark false && !(!false && c.ahead 1 == '\x27')) = true := by
      rw [c.peek_cons hc, beq_eq_false_iff_ne.mpr hnext]
      rfl
    rw [quotedFrom_succ, if_pos hclose]
    rfl
  | cons x rest =>
    have hx := h.shown x List.mem_cons_self
    by_cases hspace : x = ' '
    · -- a run of spaces, behind which no break stands
      obtain ⟨run, others, hsplit, hrun, hothers⟩ := exists_run (· == ' ') rest
      have hspaces : ∀ y ∈ x :: run, y = ' ' := List.forall_mem_cons.mpr
        ⟨hspace, fun y hy => eq_of_beq (hrun y hy)⟩
      have hall : x :: rest = (x :: run) ++ others := congrArg (x :: ·) hsplit
      have hnext : ∀ y ∈ others.head?, y ≠ ' ' := fun y hy => ne_of_beq_false (hothers y hy)
      have hwritten := singleChars_spaces indent hspaces others
      rw [← hall] at hwritten
      rw [hwritten, List.append_assoc] at hc
      have hquote : x ≠ quoteMark false := hspace ▸ by decide
      exact hgo hall (List.cons_ne_nil _ _) hwritten (open_of_ne hc hquote)
        ((hall ▸ h).quotedPiece_spaces hspaces hnext hc)
    cases hbreak : isWrittenBreak x with
    | true =>
      -- a run of breaks, behind which no space stands
      obtain ⟨run, others, hsplit, hrun, hothers⟩ := exists_run isWrittenBreak rest
      have hbreaks : ∀ y ∈ x :: run, isWrittenBreak y = true :=
        List.forall_mem_cons.mpr ⟨hbreak, hrun⟩
      have hall : x :: rest = (x :: run) ++ others := congrArg (x :: ·) hsplit
      have hwritten : singleChars indent false (x :: rest) =
          (breakChars x run ++ List.replicate indent ' ') ++ singleChars indent false others := by
        rw [hall, singleChars_run hbreaks hothers, List.append_assoc]
      rw [hwritten, List.append_assoc, List.append_assoc] at hc
      obtain ⟨hopen, hread⟩ := (hall ▸ h).quotedPiece_breaks hbreaks hothers hindent hc
      exact hgo hall (List.cons_ne_nil _ _) hwritten hopen hread
    | false =>
      -- one character, a quote being doubled
      have hwritten := singleChars_cons indent hbreak rest
      rw [hwritten, List.append_assoc] at hc
      by_cases hquote : x = '\x27'
      · have hdouble : singleChar x = ['\x27', '\x27'] := if_pos hquote
        rw [hdouble] at hc hwritten
        have hopen : (c.peek == quoteMark false && !(!false && c.ahead 1 == '\x27')) = false := by
          rw [c.ahead_one hc, beq_self_eq_true]
          exact Bool.and_false _
        refine hgo (show x :: rest = [x] ++ rest from rfl) (List.cons_ne_nil _ _) hwritten hopen ?_
        rw [quotedPiece, c.peek_cons hc, hquote]
        rfl
      · have hone : singleChar x = [x] := if_neg hquote
        rw [hone] at hc hwritten
        refine hgo (show x :: rest = [x] ++ rest from rfl) (List.cons_ne_nil _ _) hwritten
          (open_of_ne hc hquote) ?_
        exact quotedPiece_char hc hquote (fun heq => absurd heq Bool.false_ne_true)
          (not_isGap_of_shown hx hspace hbreak)

end Scalar

/-! ### Escapes -/

/-- The number that a character holds is that of a character. -/
theorem codeOf_lt (x : Char) : Text.codeOf x < 0x110000 := by
  have hlt : x.toNat < 0x110000 := x.valid.elim (fun h => Nat.lt_trans h (by decide)) (·.2)
  unfold Text.codeOf
  split
  · omega
  · exact hlt

/-- A character comes back from the number that it holds. -/
theorem charOfCode_codeOf (x : Char) : Text.charOfCode (Text.codeOf x) = x := by
  unfold Text.codeOf
  split
  next h =>
    obtain ⟨hshift, hhalf⟩ := Bool.and_eq_true_iff.mp h
    rw [Text.charOfCode, if_pos hhalf, Nat.add_sub_cancel' (of_decide_eq_true hshift),
      Char.ofNat_toNat]
  next =>
    have hvalid : x.toNat < 55296 ∨ 57343 < x.toNat := x.valid.imp id (·.1)
    have hhalf : Text.isHalf x.toNat = false := by
      rw [Text.isHalf, Bool.and_eq_false_iff, decide_eq_false_iff_not, decide_eq_false_iff_not]
      omega
    rw [Text.charOfCode, hhalf, if_neg Bool.false_ne_true, Char.ofNat_toNat]

namespace Lexeme

open Cursor

/-- The characters of a number in upper-case hexadecimal. -/
def hexChars (width n : Nat) : List Char :=
  List.replicate (width - (Nat.toDigits 16 n).length) '0' ++ (Nat.toDigits 16 n).map Char.toUpper

/-- So a number is written. -/
theorem toList_hex (width n : Nat) :
    ((hex width n).map Char.toUpper).toList = hexChars width n := by
  have hzeros : ("".pushn '0' (width - (Nat.toDigits 16 n).length)).toList =
      List.replicate (width - (Nat.toDigits 16 n).length) '0' := Number.toList_pushn "" '0' _
  simp [hex, hexChars, hzeros]

/-- A digit has its value. -/
theorem baseDigit?_digitChar : ∀ d < 16,
    Number.baseDigit? (Nat.digitChar d).toUpper = some d := by
  decide

/-- Digits are digits. -/
theorem isHexDigit_toDigits (n : Nat) :
    ∀ x ∈ (Nat.toDigits 16 n).map Char.toUpper, isHexDigit x = true := by
  induction n using Nat.strong_induction_on with
  | _ n ih =>
  have hone : ∀ d < 16, isHexDigit (Nat.digitChar d).toUpper = true := by decide
  rw [Nat.toDigits_eq_if (by decide)]
  split
  next hlt => simpa using hone n hlt
  next hge =>
    rw [List.map_append]
    intro x hx
    rcases List.mem_append.mp hx with hx | hx
    · exact ih (n / 16) (by omega) x hx
    · rw [List.mem_singleton.mp hx]
      exact hone _ (Nat.mod_lt _ (by decide))

/-- Another digit at the end. -/
theorem digitsValue_concat (cs : List Char) {x : Char} {d : Nat}
    (hx : Number.baseDigit? x = some d) :
    digitsValue 16 (cs ++ [x]) = 16 * digitsValue 16 cs + d := by
  simp [digitsValue, Number.ofDigits, hx]

/-- A number is the value of its digits. -/
theorem digitsValue_toDigits (n : Nat) :
    digitsValue 16 ((Nat.toDigits 16 n).map Char.toUpper) = n := by
  induction n using Nat.strong_induction_on with
  | _ n ih =>
  rw [Nat.toDigits_eq_if (by decide)]
  split
  next hlt =>
    rw [List.map_singleton, ← List.nil_append [_],
      digitsValue_concat [] (baseDigit?_digitChar n hlt)]
    exact Nat.zero_add n
  next hge =>
    rw [List.map_append, List.map_singleton,
      digitsValue_concat _ (baseDigit?_digitChar _ (Nat.mod_lt n (by decide))),
      ih (n / 16) (by omega)]
    exact Nat.div_add_mod n 16

/-- Zeros in front do not count. -/
theorem digitsValue_zeros (k : Nat) (cs : List Char) :
    digitsValue 16 (List.replicate k '0' ++ cs) = digitsValue 16 cs := by
  induction k with
  | zero => rfl
  | succ k ih => rwa [List.replicate_succ, List.cons_append]

/-- A number that fits is written with as many digits. -/
theorem length_hexChars {width n : Nat} (hwidth : 0 < width) (h : n < 16 ^ width) :
    (hexChars width n).length = width := by
  have hle := (Nat.length_toDigits_le_iff (by decide) hwidth).mpr h
  rw [hexChars, List.length_append, List.length_replicate, List.length_map]
  omega

/-- What holds of all entries of a table holds of what is found in it. -/
theorem of_lookup_eq_some {table : List (Char × Char)} {p : Char × Char → Prop}
    (hall : ∀ entry ∈ table, p entry) {x y : Char} (h : table.lookup x = some y) :
    p (x, y) := by
  obtain ⟨before, after, rfl, -⟩ := List.lookup_eq_some_iff.mp h
  exact hall _ (List.mem_append_right _ List.mem_cons_self)

/-- The letter of an escape stands for the character that has it. -/
theorem shortEscape?_eq {x letter : Char} (h : Scalar.shortEscape? x = some letter) :
    shortEscape? letter = some x := by
  unfold Scalar.shortEscape? at h
  exact of_lookup_eq_some (p := fun entry => shortEscape? entry.2 = some entry.1) (by decide) h

/-- An escape with a letter. -/
theorem escape_letter {c : Cursor} {x letter : Char} {tail : List Char}
    (hc : c.rest = letter :: tail) (h : shortEscape? letter = some x) :
    escape c = .ok ([x], c.advance 1) := by
  rw [escape, c.peek_cons hc, h]
  rfl

/-- An escape with a number. -/
theorem escape_number {c : Cursor} {x letter : Char} {width : Nat} {tail : List Char}
    (hwidth : 0 < width) (hcode : Text.codeOf x < 16 ^ width)
    (hc : c.rest = letter :: (hexChars width (Text.codeOf x) ++ tail))
    (hletter : shortEscape? letter = none) (hescape : escapeWidth? letter = some width) :
    escape c = .ok ([x], c.advance (width + 1)) := by
  have hlength := length_hexChars hwidth hcode
  have hdigits : c.step.rest.take width = hexChars width (Text.codeOf x) := by
    rw [rest_step, hc, List.tail_cons, List.take_left' hlength]
  -- All digits are hexadecimal: zeros in front, and then those of the code.
  have hall : (hexChars width (Text.codeOf x)).all isHexDigit = true := by
    rw [List.all_eq_true, hexChars]
    intro y hy
    rcases List.mem_append.mp hy with hy | hy
    · rw [List.eq_of_mem_replicate hy]
      rfl
    · exact isHexDigit_toDigits _ y hy
  have hvalue : charOfCode (digitsValue 16 (hexChars width (Text.codeOf x))) = .ok [x] := by
    rw [hexChars, digitsValue_zeros, digitsValue_toDigits, charOfCode, if_pos (codeOf_lt x),
      charOfCode_codeOf]
  rw [escape, c.peek_cons hc, hletter, hescape]
  dsimp only
  rw [hdigits, hall, hlength, hvalue, beq_self_eq_true]
  rfl

/-- The characters of a character between double quotes. -/
def doubleChars (x : Char) : List Char := (Scalar.doubleChar x).toList

/-- A character that needs no escape. -/
theorem doubleChars_bare {x : Char} (h : Scalar.isBare x = true) : doubleChars x = [x] := by
  rw [doubleChars, Scalar.doubleChar, if_pos h]
  exact String.toList_singleton x

/-- **Every other character** is read back from its escape. -/
theorem escape_doubleChars {x : Char} (h : Scalar.isBare x = false) : ∃ chars,
    doubleChars x = '\\' :: chars ∧ ∀ {c : Cursor}
      {tail : List Char}, c.rest = chars ++ tail →
      escape c = .ok ([x], c.advance chars.length) := by
  rw [doubleChars, Scalar.doubleChar, h, if_neg Bool.false_ne_true]
  cases hshort : Scalar.shortEscape? x with
  | some letter =>
    exact ⟨[letter], by simp, fun hc => escape_letter hc (shortEscape?_eq hshort)⟩
  | none =>
    -- one of three widths
    have hnumber : ∀ {letter : Char} {width : Nat}, 0 < width → Text.codeOf x < 16 ^ width →
        shortEscape? letter = none → escapeWidth? letter = some width →
        ∀ {c : Cursor} {tail : List Char},
          c.rest = letter :: hexChars width (Text.codeOf x) ++ tail →
          escape c = .ok ([x], c.advance (letter :: hexChars width (Text.codeOf x)).length) := by
      intro letter width hwidth hcode hletter hescape c tail hc
      rw [List.length_cons, length_hexChars hwidth hcode]
      exact escape_number hwidth hcode hc hletter hescape
    dsimp only
    split
    next hcode =>
      exact ⟨_, by rw [String.toList_append, toList_hex]; rfl,
        hnumber (by decide) (Nat.lt_succ_of_le hcode) (by decide) (by decide)⟩
    split
    next hcode =>
      exact ⟨_, by rw [String.toList_append, toList_hex]; rfl,
        hnumber (by decide) (Nat.lt_succ_of_le hcode) (by decide) (by decide)⟩
    next =>
      exact ⟨_, by rw [String.toList_append, toList_hex]; rfl,
        hnumber (by decide) (Nat.lt_trans (codeOf_lt x) (by decide)) (by decide) (by decide)⟩

/-! ### Double quotes -/

/-- A character that needs no escape is a space or no gap, and none of the marks. -/
theorem isBare_eq {x : Char} (h : Scalar.isBare x = true) :
    x ≠ '\x22' ∧ x ≠ '\\' ∧ (x ≠ ' ' → isGap x = false) := by
  have hne : ∀ y, Scalar.isBare y = false → x ≠ y := fun y hy heq =>
    Bool.false_ne_true (hy.symm.trans (heq ▸ h))
  refine ⟨hne _ (by decide), hne _ (by decide), fun hspace => ?_⟩
  simp only [isGap, isSpaceOrEnd, isLineEnd, isBreak, Bool.or_eq_false_iff, beq_eq_false_iff_ne]
  exact ⟨hne _ (by decide), hspace, hne _ (by decide),
    ⟨⟨⟨⟨hne _ (by decide), hne _ (by decide)⟩,
    hne _ (by decide)⟩, hne _ (by decide)⟩, hne _ (by decide)⟩⟩

/-- The characters of a text between double quotes, up to the closing quote. -/
def doubleText (cs : List Char) : List Char := cs.flatMap doubleChars

/-- What is written behind a run of spaces is solid. -/
theorem isSolid_doubleText {cs : List Char} (hhead : ∀ x ∈ cs.head?, x ≠ ' ')
    (tail : List Char) :
    IsSolid (doubleText cs ++ '\x22' :: tail) := by
  cases cs with
  | nil => exact Scalar.isSolid_of_not_isGap (by decide)
  | cons x rest =>
    rw [doubleText, List.flatMap_cons]
    cases hbare : Scalar.isBare x with
    | true =>
      rw [doubleChars_bare hbare]
      exact Scalar.isSolid_of_not_isGap ((isBare_eq hbare).2.2 (hhead x rfl))
    | false =>
      obtain ⟨chars, hchars, -⟩ := escape_doubleChars hbare
      rw [hchars]
      exact Scalar.isSolid_of_not_isGap (by decide)

/-- Spaces are written as they are. -/
theorem doubleText_spaces {spaces : List Char} (hspaces : ∀ x ∈ spaces, x = ' ')
    (others : List Char) : doubleText (spaces ++ others) = spaces ++ doubleText others := by
  induction spaces with
  | nil => rfl
  | cons x spaces ih =>
    have hx := hspaces x List.mem_cons_self
    have hchars : doubleChars x = [x] := doubleChars_bare (hx ▸ by decide)
    rw [List.cons_append, doubleText, List.flatMap_cons, ← doubleText, hchars,
      ih fun y hy => hspaces y (List.mem_cons_of_mem _ hy)]
    rfl

/-- **Texts are read back from double quotes**, up to the closing quote. -/
theorem quotedFrom_doubleText {cs : List Char} {c : Cursor} {tail : List Char}
    (hc : c.rest = doubleText cs ++ '\x22' :: tail) {fuel : Nat} (hfuel : cs.length < fuel) :
    quotedFrom true fuel c = .ok (cs, c.advance ((doubleText cs).length + 1)) := by
  -- By strong induction on the length: a run of spaces is taken at once, and every other character
  -- by itself.
  induction hn : cs.length using Nat.strong_induction_on generalizing cs c fuel with
  | _ n ih =>
  obtain ⟨fuel, rfl⟩ := Nat.exists_eq_succ_of_ne_zero (Nat.ne_zero_of_lt hfuel)
  have hgo : ∀ {piece written others : List Char}, cs = piece ++ others → piece ≠ [] →
      doubleText cs = written ++ doubleText others →
      (c.peek == quoteMark true && !(!true && c.ahead 1 == '\x27')) = false →
      quotedPiece true c = .ok (piece, c.advance written.length) →
      quotedFrom true (fuel + 1) c = .ok (cs, c.advance ((doubleText cs).length + 1)) := by
    intro piece written others hsplit hpiece hwritten hopen hread
    have hlength : 0 < piece.length := List.length_pos_iff.mpr hpiece
    rw [hwritten, List.append_assoc] at hc
    have hrest := c.rest_append hc
    rw [hsplit, List.length_append] at hn hfuel
    rw [hwritten, List.length_append, Nat.add_assoc, hsplit]
    exact quotedFrom_piece hopen hread (ih others.length (by omega) hrest (by omega) rfl)
  cases cs with
  | nil =>
    have hclose : (c.peek == quoteMark true && !(!true && c.ahead 1 == '\x27')) = true := by
      rw [c.peek_cons hc]
      rfl
    rw [quotedFrom_succ, if_pos hclose]
    rfl
  | cons x rest =>
    by_cases hspace : x = ' '
    · obtain ⟨run, others, hsplit, hrun, hothers⟩ := exists_run (· == ' ') rest
      have hspaces : ∀ y ∈ x :: run, y = ' ' := List.forall_mem_cons.mpr
        ⟨hspace, fun y hy => eq_of_beq (hrun y hy)⟩
      have hall : x :: rest = (x :: run) ++ others := congrArg (x :: ·) hsplit
      have hwritten := doubleText_spaces hspaces others
      rw [← hall] at hwritten
      rw [hwritten, List.append_assoc] at hc
      have hquote : x ≠ quoteMark true := hspace ▸ by decide
      refine hgo hall (List.cons_ne_nil _ _) hwritten (open_of_ne hc hquote) ?_
      rw [quotedPiece_gap hc hquote (hspace ▸ by decide) (hspace ▸ rfl)]
      exact quotedGap_spaces hc hspaces
        (isSolid_doubleText (fun y hy => beq_eq_false_iff_ne.mp (hothers y hy)) tail)
    · have hone : x :: rest = [x] ++ rest := rfl
      have hwritten : doubleText (x :: rest) = doubleChars x ++ doubleText rest := by
        rw [doubleText, List.flatMap_cons, ← doubleText]
      rw [hwritten, List.append_assoc] at hc
      cases hbare : Scalar.isBare x with
      | true =>
        obtain ⟨hquote, hslash, hgap⟩ := isBare_eq hbare
        rw [doubleChars_bare hbare] at hc hwritten
        refine hgo hone (List.cons_ne_nil _ _) hwritten (open_of_ne hc hquote) ?_
        exact quotedPiece_char hc hquote (fun _ => hslash) (hgap hspace)
      | false =>
        obtain ⟨chars, hchars, hread⟩ := escape_doubleChars hbare
        rw [hchars] at hc hwritten
        refine hgo hone (List.cons_ne_nil _ _) hwritten (open_of_ne hc (by decide)) ?_
        have hrest : c.step.rest = chars ++ (doubleText rest ++ '\x22' :: tail) := by
          rw [rest_step, hc]
          rfl
        rw [quotedPiece, c.peek_cons hc, List.length_cons]
        exact hread hrest

/-- No text is longer than what is written for it between single quotes. -/
theorem length_le_singleChars (indent : Nat) (inBreaks : Bool) (cs : List Char) :
    cs.length ≤ (Scalar.singleChars indent inBreaks cs).length := by
  fun_induction Scalar.singleChars indent inBreaks cs with
  | case1 | case2 => exact Nat.zero_le _
  | case3 inBreaks c rest hbreak ih =>
    simp only [List.length_append, List.length_cons]
    omega
  | case4 inBreaks c rest hbreak ih =>
    have hone : 0 < (if (c == '\x27') = true then ['\x27', '\x27'] else [c]).length := by
      split <;> exact Nat.succ_pos _
    simp only [List.length_append, List.length_cons]
    omega

/-- Nor between double quotes. -/
theorem length_le_doubleText (cs : List Char) : cs.length ≤ (doubleText cs).length := by
  induction cs with
  | nil => exact Nat.zero_le _
  | cons x rest ih =>
    have hone : 0 < (doubleChars x).length := by
      cases hbare : Scalar.isBare x with
      | true =>
        rw [doubleChars_bare hbare]
        exact Nat.one_pos
      | false =>
        obtain ⟨chars, hchars, -⟩ := escape_doubleChars hbare
        rw [hchars]
        exact Nat.succ_pos _
    rw [doubleText, List.flatMap_cons, ← doubleText, List.length_append, List.length_cons]
    omega

/-- **A scalar between single quotes** is read back, whatever stands behind it. -/
theorem quoted_single {cs : List Char} (h : Scalar.Fits cs) {indent : Nat} (hindent : 0 < indent)
    {c : Cursor} {tail : List Char}
    (hc : c.rest = '\x27' :: (Scalar.singleChars indent false cs ++ '\x27' :: tail))
    (htail : tail.head? ≠ some '\x27') :
    quoted false c =
      .ok (String.ofList cs, c.advance ((Scalar.singleChars indent false cs).length + 2)) := by
  have hrest : c.step.rest = Scalar.singleChars indent false cs ++ '\x27' :: tail := by
    rw [rest_step, hc]
    rfl
  have hfuel : cs.length < c.rest.length + 1 := by
    have hle := length_le_singleChars indent false cs
    rw [hc, List.length_cons, List.length_append]
    omega
  rw [quoted, h.quotedFrom hindent hrest htail hfuel]
  rfl

/-- **A scalar between double quotes** is read back, whatever stands behind it. -/
theorem quoted_double {cs : List Char} {c : Cursor} {tail : List Char}
    (hc : c.rest = '\x22' :: (doubleText cs ++ '\x22' :: tail)) :
    quoted true c = .ok (String.ofList cs, c.advance ((doubleText cs).length + 2)) := by
  have hrest : c.step.rest = doubleText cs ++ '\x22' :: tail := by
    rw [rest_step, hc]
    rfl
  have hfuel : cs.length < c.rest.length + 1 := by
    have hle := length_le_doubleText cs
    rw [hc, List.length_cons, List.length_append]
    omega
  rw [quoted, quotedFrom_doubleText hrest hfuel]
  rfl

end Lexeme
end PipelineCompiler.Yaml
