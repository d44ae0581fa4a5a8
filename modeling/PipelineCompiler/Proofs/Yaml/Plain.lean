import PipelineCompiler.Proofs.Yaml.Quoted

namespace PipelineCompiler.Yaml

/-!
# Plain scalars are read back

A scalar without quotes is read word by word.  It ends before the `:` behind a key, or at the end of
its line if the text goes on at a lower column.

* `NextLine` — the texts that may stand on the next line;
* `Scalar.Words` — the texts that can stand without quotes, from the start of a word on;
* `Lexeme.plainWords_eq` — their words are read one by one;
* `Lexeme.plain_key`, `Lexeme.plain_line` — so is the scalar, as a key or at the end of a line.
-/

/-- The texts that may stand on the next line: they start with a token that is no mark of a
    document, or nothing is left. -/
structure NextLine (rest : List Char) : Prop where
  solid : ∀ x ∈ rest.head?, x ≠ ' ' ∧ x ≠ '#' ∧ IsInline x
  unmarked : ∀ mark ∈ ['-', '.'], rest.take 3 ≠ [mark, mark, mark]

namespace Lexeme

open Cursor

variable {c : Cursor}

/-! ### Gaps between lines -/

/-- Behind an indentation there is no mark of a document. -/
theorem unmarked_line {k : Nat} {rest : List Char} (h : NextLine rest)
    (hc : c.rest = List.replicate k ' ' ++ rest) : c.atDocumentMark = false := by
  cases k with
  | zero =>
    have hmark : ∀ mark ∈ ['-', '.'], c.atMark mark = false := fun mark hmark => by
      rw [atMark, hc, Bool.and_eq_false_iff]
      exact .inl (beq_eq_false_iff_ne.mpr (h.unmarked mark hmark))
    rw [atDocumentMark, hmark '-' (by decide), hmark '.' (by decide)]
    rfl
  | succ k => exact atDocumentMark_eq_false (hc.trans rfl) (show ' ' ≠ '-' by decide) (by decide)

/-- The indentation of the next line is passed. -/
theorem breaksAndSpaces_eq {k fuel : Nat} {rest : List Char} (h : NextLine rest)
    (hc : c.rest = List.replicate k ' ' ++ rest) (hfuel : k < fuel) :
    breaksAndSpaces fuel c = ([], false, c.advance k) := by
  -- By induction on the width of the indentation.
  induction k generalizing c fuel with
  | zero =>
    obtain ⟨fuel, rfl⟩ := Nat.exists_eq_succ_of_ne_zero (Nat.ne_zero_of_lt hfuel)
    rw [List.replicate_zero, List.nil_append] at hc
    rw [breaksAndSpaces, advance]
    cases rest with
    | nil =>
      rw [c.peek_nil hc]
      rfl
    | cons x rest =>
      obtain ⟨hspace, -, hbreak, -⟩ := h.solid x rfl
      rw [c.peek_cons hc, beq_eq_false_iff_ne.mpr hspace, hbreak]
      rfl
  | succ k ih =>
    obtain ⟨fuel, rfl⟩ := Nat.exists_eq_succ_of_ne_zero (Nat.ne_zero_of_lt hfuel)
    have hrest : c.step.rest = List.replicate k ' ' ++ rest := by
      rw [rest_step, hc]
      rfl
    rw [breaksAndSpaces, c.peek_cons (hc.trans rfl), if_pos (beq_self_eq_true ' '),
      ih hrest (Nat.lt_of_succ_lt_succ hfuel), step_advance]

/-- The gap behind a key. -/
theorem plainGap_key {tail : List Char} (hc : c.rest = ':' :: tail) :
    plainGap c = ⟨[], false, c⟩ := by
  have htaken : c.takeWhile (· == ' ') = ([], c) :=
    takeWhile_eq (show c.rest = [] ++ _ from hc) (List.forall_mem_nil _) fun y hy => by
      obtain rfl := Option.some.inj hy
      rfl
  rw [plainGap, htaken]
  dsimp only
  rw [c.peek_cons hc]
  rfl

/-- The gap between two words of a line. -/
theorem plainGap_spaces {spaces tail : List Char} (hc : c.rest = spaces ++ tail)
    (hspaces : ∀ x ∈ spaces, x = ' ')
    (htail : ∃ x rest, tail = x :: rest ∧ x ≠ ' ' ∧ isBreak x = false) :
    plainGap c = ⟨spaces, false, c.advance spaces.length⟩ := by
  obtain ⟨x, rest, rfl, hspace, hbreak⟩ := htail
  have htaken : c.takeWhile (· == ' ') = (spaces, c.advance spaces.length) :=
    takeWhile_eq hc (fun y hy => beq_iff_eq.mpr (hspaces y hy)) fun y hy => by
      obtain rfl := Option.some.inj hy
      exact beq_eq_false_iff_ne.mpr hspace
  rw [plainGap, htaken]
  dsimp only
  rw [peek_cons _ (c.rest_append hc), hbreak]
  rfl

/-- The gap behind the last word of a line. -/
theorem plainGap_line {k : Nat} {rest : List Char} (h : NextLine rest)
    (hc : c.rest = '\n' :: (List.replicate k ' ' ++ rest)) :
    plainGap c = ⟨[' '], true, c.advance (1 + k)⟩ := by
  have htaken : c.takeWhile (· == ' ') = ([], c) :=
    takeWhile_eq (show c.rest = [] ++ _ from hc) (List.forall_mem_nil _) fun y hy => by
      obtain rfl := Option.some.inj hy
      rfl
  have hrest : c.step.rest = List.replicate k ' ' ++ rest := by
    rw [rest_step, hc]
    rfl
  -- There is fuel for each blank on the next line.
  have hfuel : k < c.step.rest.length + 1 := by
    rw [hrest, List.length_append, List.length_replicate]
    omega
  rw [plainGap, htaken]
  dsimp only
  rw [c.peek_cons hc, lineBreak_eq hc (.inl rfl)]
  dsimp only
  rw [unmarked_line h hrest, breaksAndSpaces_eq h hrest hfuel, Nat.add_comm 1 k]
  rfl

end Lexeme

/-! ### Words -/

namespace Scalar

/-- The texts that can stand without quotes, from the start of a word on. -/
structure Words (cs : List Char) : Prop where
  shown : ∀ c ∈ cs, isShown c = true
  oneLine : ∀ c ∈ cs, isWrittenBreak c = false
  colons : cs.IsChain fun c next => (c == ':' && isGap next) = false
  hashes : cs.IsChain fun c next => (isGap c && next == '#') = false
  first : ∀ c ∈ cs.head?, c ≠ ' ' ∧ c ≠ '#'
  last : ∀ c ∈ cs.getLast?, c ≠ ':' ∧ c ≠ ' '

/-- A text that is written without quotes. -/
theorem words_of_allowsPlain {cs : List Char} (h : allowsPlain cs = true) : Words cs := by
  simp only [allowsPlain, allowsSingle, hasIndicator, isMultiline, Bool.and_eq_true,
    Bool.or_eq_false_iff, Bool.not_eq_true', hasNeighbours_eq_false, List.all_eq_true,
    List.any_eq_false, bne_iff_ne, beq_eq_false_iff_ne] at h
  obtain ⟨⟨⟨⟨⟨hshown, -⟩, hbreaks⟩, ⟨⟨⟨⟨-, hstart⟩, hcolons⟩, hlast⟩,
    hhashes⟩⟩, hfirst⟩, hend⟩ := h
  refine ⟨hshown, fun c hc => Bool.eq_false_iff.mpr (hbreaks c hc), hcolons, hhashes,
    fun c hc => ⟨fun heq => hfirst (heq ▸ hc), fun heq => ?_⟩,
    fun c hc => ⟨fun heq => hlast (heq ▸ hc), fun heq => hend (heq ▸ hc)⟩⟩
  obtain ⟨rest, rfl⟩ : ∃ rest, cs = c :: rest := List.head?_eq_some_iff.mp hc
  simp [heq, startsWithIndicator] at hstart

/-- A shown character that breaks no line keeps to it. -/
theorem isInline_of_shown {c : Char} (hshown : isShown c = true)
    (hbreak : isWrittenBreak c = false) : IsInline c := by
  have hreturn : c ≠ '\r' := ne_of_shown hshown (by decide)
  simp only [isWrittenBreak, Bool.or_eq_false_iff, beq_eq_false_iff_ne] at hbreak
  refine ⟨?_, ne_of_shown hshown (by decide)⟩
  simp only [isBreak, Bool.or_eq_false_iff, beq_eq_false_iff_ne]
  exact ⟨⟨⟨⟨hreturn, hbreak.1.1.1⟩, hbreak.1.1.2⟩, hbreak.1.2⟩, hbreak.2⟩

/-- The characters of words keep to their line. -/
theorem Words.isInline {cs : List Char} (h : Words cs) {c : Char} (hc : c ∈ cs) : IsInline c :=
  isInline_of_shown (h.shown c hc) (h.oneLine c hc)

/-- What follows a word and a gap are words again. -/
theorem Words.right {xs ys : List Char} (h : Words (xs ++ ys))
    (hfirst : ∀ c ∈ ys.head?, c ≠ ' ' ∧ c ≠ '#') : Words ys where
  shown c hc := h.shown c (List.mem_append_right xs hc)
  oneLine c hc := h.oneLine c (List.mem_append_right xs hc)
  colons := (List.isChain_append.mp h.colons).2.1
  hashes := (List.isChain_append.mp h.hashes).2.1
  first := hfirst
  last c hc := h.last c (List.mem_getLast?_append_of_mem_getLast? hc)

/-- Behind a word and a space, there is a run of spaces and then a word again. -/
theorem Words.exists_next {x y : Char} {more others : List Char}
    (h : Words ((x :: more) ++ (y :: others))) (hspace : y = ' ') :
    ∃ run z cs, others = run ++ z :: cs ∧ (∀ w ∈ y :: run, w = ' ') ∧ z ≠ ' ' ∧
      z ≠ '#' ∧ Words (z :: cs) := by
  obtain ⟨run, cs, rfl, hrun, hcs⟩ := exists_run (· == ' ') others
  have hspaces : ∀ w ∈ y :: run, w = ' ' := List.forall_mem_cons.mpr
    ⟨hspace, fun w hw => eq_of_beq (hrun w hw)⟩
  obtain ⟨last, hlast⟩ := exists_getLast? (x := y) run
  have hlastSpace : last = ' ' := hspaces last (List.mem_of_getLast? hlast)
  -- the run is not all that is left, because the text does not end with a space
  obtain ⟨z, cs, rfl⟩ : ∃ z rest, cs = z :: rest := by
    cases cs with
    | cons z rest => exact ⟨z, rest, rfl⟩
    | nil =>
      refine absurd rfl (h.last ' ' ?_).2
      rw [List.append_nil, List.getLast?_append, hlast, hlastSpace]
      rfl
  have hz : z ≠ ' ' := ne_of_beq_false (hcs z rfl)
  have hhashes := (List.isChain_append.mp h.hashes).2.1
  rw [← List.cons_append, List.isChain_append] at hhashes
  have hzHash : z ≠ '#' := by
    have hpair := hhashes.2.2 last hlast z rfl
    rw [hlastSpace] at hpair
    exact ne_of_beq_false hpair
  refine ⟨run, z, cs, rfl, hspaces, hz, hzHash, ?_⟩
  have hsplit : Words ((x :: more ++ y :: run) ++ (z :: cs)) := by
    rwa [List.append_assoc, List.cons_append]
  refine hsplit.right fun w hw => ?_
  obtain rfl := Option.some.inj hw
  exact ⟨hz, hzHash⟩

end Scalar

namespace Lexeme

open Cursor Scalar

variable {c : Cursor}

/-- A word ends where a run of nothing starts. -/
theorem plainRun_append {word tail : List Char} (hgap : ∀ x ∈ word, isGap x = false)
    (hcolons : word.IsChain fun x next => (x == ':' && isGap next) = false)
    (hlast : ∀ x ∈ word.getLast?, x ≠ ':') (htail : plainRun false tail = []) :
    plainRun false (word ++ tail) = word := by
  -- By induction on the word; only its last character looks at what comes behind.
  induction word with
  | nil => exact htail
  | cons x word ih =>
    have hx := hgap x List.mem_cons_self
    have hcolon : (x == ':' && (isGap ((word ++ tail).head?.getD '\x00') ||
        (false && ",[]\x7b\x7d".contains ((word ++ tail).head?.getD '\x00')))) = false := by
      cases word with
      | nil => rw [beq_eq_false_iff_ne.mpr (hlast x rfl), Bool.false_and]
      | cons y word =>
        rw [Bool.false_and, Bool.or_false]
        exact (List.isChain_cons_cons.mp hcolons).1
    have hlast' : ∀ y ∈ word.getLast?, y ≠ ':' := fun y hy =>
      hlast y (by
        cases word with
        | nil => cases hy
        | cons z word => exact hy)
    rw [List.cons_append, plainRun, hx, hcolon, Bool.false_and,
      ih (fun y hy => hgap y (List.mem_cons_of_mem _ hy)) hcolons.of_cons hlast']
    rfl

/-- **Words are read one by one**, up to a gap at which the scalar ends. -/
theorem plainWords_eq {cs : List Char} (h : Words cs) (hne : cs ≠ []) {indent : Int}
    {tail : List Char} (hc : c.rest = cs ++ tail) (hstop : plainRun false tail = [])
    (hindent : indent ≤ c.column + 1)
    (hend : ((plainGap (c.advance cs.length)).text.isEmpty ||
      (plainGap (c.advance cs.length)).cursor.peek == '#' ||
      (!false && (plainGap (c.advance cs.length)).cursor.column < indent)) = true)
    (text : List Char) (broken : Bool) {fuel : Nat} (hfuel : cs.length < fuel) :
    plainWords false indent fuel ⟨text, broken, c⟩ =
      (text ++ cs, (plainGap (c.advance cs.length)).broken,
        (plainGap (c.advance cs.length)).cursor) := by
  induction hn : cs.length using Nat.strong_induction_on generalizing cs c text broken fuel with
  | _ n ih =>
  obtain ⟨fuel, rfl⟩ := Nat.exists_eq_succ_of_ne_zero (Nat.ne_zero_of_lt hfuel)
  obtain ⟨word, others, rfl, hword, hothers⟩ := exists_run (· != ' ') cs
  have hgap : ∀ x ∈ word, isGap x = false := fun x hx =>
    not_isGap_of_shown (h.shown x (List.mem_append_left _ hx)) (bne_iff_ne.mp (hword x hx))
      (h.oneLine x (List.mem_append_left _ hx))
  -- the word is not empty, and does not start with a mark of a comment
  obtain ⟨x, more, rfl⟩ : ∃ x more, word = x :: more := by
    cases word with
    | cons x more => exact ⟨x, more, rfl⟩
    | nil =>
      cases others with
      | nil => exact absurd rfl hne
      | cons y others =>
        have hspace : y = ' ' := by simpa using hothers y rfl
        exact absurd hspace (h.first y rfl).1
  have hhash : (c.peek == '#') = false := by
    rw [c.peek_cons (hc.trans rfl)]
    exact beq_eq_false_iff_ne.mpr (h.first x rfl).2
  cases others with
  | nil =>
    rw [List.append_nil] at h hc hend hn ⊢
    have hrun : plainRun false c.rest = x :: more := by
      rw [hc]
      exact plainRun_append hgap h.colons (fun y hy => (h.last y hy).1) hstop
    rw [plainWords]
    dsimp only
    rw [hhash, if_neg Bool.false_ne_true, hrun, List.isEmpty_cons, if_neg Bool.false_ne_true,
      if_pos hend, hn]
  | cons y others =>
    have hspace : y = ' ' := by simpa using hothers y rfl
    -- the gap is no end, because the text does not end with a space
    obtain ⟨run, z, cs, rfl, hspaces, hz, hzHash, hwords⟩ := h.exists_next hspace
    -- this word, and the gap behind it
    have hchars : c.rest = (x :: more) ++ ((y :: run) ++ (z :: cs ++ tail)) := by
      rw [hc]
      simp
    have hrun : plainRun false c.rest = x :: more := by
      have hcolons := List.isChain_append.mp h.colons
      rw [hchars]
      refine plainRun_append hgap hcolons.1 (fun w hw heq => ?_) ?_
      · have hpair := hcolons.2.2 w hw y rfl
        rw [heq, hspace] at hpair
        cases hpair
      · rw [hspace]
        rfl
    have hnext : plainGap (c.advance (x :: more).length) =
        ⟨y :: run, false, c.advance ((x :: more).length + (y :: run).length)⟩ := by
      rw [plainGap_spaces (c.rest_append hchars) hspaces ⟨z, cs ++ tail, rfl, hz, ?_⟩,
        advance_add]
      exact (hwords.isInline List.mem_cons_self).1
    have hbehind : c.rest = ((x :: more) ++ (y :: run)) ++ (z :: cs ++ tail) := by
      rw [hchars, List.append_assoc]
    obtain ⟨-, hcolumn⟩ := advance_inline hbehind fun w hw => h.isInline (by
      rw [← List.cons_append, ← List.append_assoc]
      exact List.mem_append_left _ hw)
    have hrest := c.rest_append hbehind
    rw [List.length_append] at hrest hcolumn
    have hpeek : ((c.advance ((x :: more).length + (y :: run).length)).peek == '#') = false := by
      rw [peek_cons _ hrest]
      exact beq_eq_false_iff_ne.mpr hzHash
    have hdeep : indent ≤ (c.advance ((x :: more).length + (y :: run).length)).column := by
      rw [hcolumn, List.length_cons]
      omega
    have hlength : n = (x :: more).length + (y :: run).length + (z :: cs).length := by
      rw [← hn]
      simp only [List.length_append, List.length_cons]
      omega
    have hpos : 0 < (x :: more).length := Nat.succ_pos _
    have hshorter : (z :: cs).length < n := by omega
    have hfuel' : (z :: cs).length < fuel := by omega
    have hmore := ih (z :: cs).length hshorter hwords (List.cons_ne_nil _ _) hrest
      (Int.le_add_one hdeep) (by rwa [← advance_add, ← hlength, ← hn])
        (y :: run) false hfuel' rfl
    rw [plainWords]
    dsimp only
    rw [hhash, if_neg Bool.false_ne_true, hrun, List.isEmpty_cons, if_neg Bool.false_ne_true, hnext,
      hmore, ← advance_add, ← hlength]
    dsimp only
    rw [hpeek, List.isEmpty_cons, decide_eq_false (Int.not_lt.mpr hdeep)]
    simp

/-- A text without quotes in front of the `:` that makes it a key. -/
theorem plain_key {cs tail : List Char} (h : Words cs) (hne : cs ≠ []) {x : Char}
    (hx : isGap x = true) (hc : c.rest = cs ++ ':' :: x :: tail) {indent : Int}
    (hindent : indent ≤ c.column + 1) :
    plain false indent c = (String.ofList cs, false, c.advance cs.length) := by
  have hgap := plainGap_key (c.rest_append hc)
  have hstop : plainRun false (':' :: x :: tail) = [] := by
    simp [plainRun, hx]
  have hfuel : cs.length < c.rest.length + 1 := by
    rw [hc, List.length_append]
    omega
  have hwords := plainWords_eq h hne hc hstop hindent (by rw [hgap]; rfl) [] false hfuel
  rw [plain, hwords, hgap]
  rfl

/-- **A text without quotes** at the end of a line.  The cursor goes on to the next line. -/
theorem plain_line {cs rest : List Char} (h : Words cs) (hne : cs ≠ []) {k : Nat}
    (hrest : NextLine rest) (hc : c.rest = cs ++ '\n' :: (List.replicate k ' ' ++ rest))
    {indent : Int} (hindent : indent ≤ c.column + 1) (hk : (k : Int) < indent) :
    plain false indent c = (String.ofList cs, true, c.advance (cs.length + (1 + k))) := by
  have hbehind := c.rest_append hc
  have hgap := plainGap_line hrest hbehind
  have hstop : plainRun false ('\n' :: (List.replicate k ' ' ++ rest)) = [] := rfl
  have hfuel : cs.length < c.rest.length + 1 := by
    rw [hc, List.length_append]
    omega
  have hcolumn := (place_line hbehind).2
  -- The text ends here: the next line is indented less than the text has to be.
  have hend : ((plainGap (c.advance cs.length)).text.isEmpty ||
      (plainGap (c.advance cs.length)).cursor.peek == '#' ||
      (!false && (plainGap (c.advance cs.length)).cursor.column < indent)) = true := by
    rw [hgap]
    dsimp only
    rw [hcolumn, decide_eq_true hk]
    simp
  have hwords := plainWords_eq h hne hc hstop hindent hend [] false hfuel
  rw [plain, hwords, hgap, c.advance_add cs.length]
  rfl

end Lexeme
end PipelineCompiler.Yaml
