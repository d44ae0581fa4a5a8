import PipelineCompiler.Proofs.Yaml.Lexer
import PipelineCompiler.Proofs.Yaml.Plain

namespace PipelineCompiler.Yaml

/-!
# Reading tokens step by step

Between two tokens of a text without brackets, what the lexer will do depends on little: what is
left, the column, the open blocks, and whether a key may start.

* `Lexer.Finishes`, `Lexer.Leads` — the tokens that reading on gives, and states between which
  they do not change;
* `Stage`, `Lexer.IsAt` — what a state between two tokens comes down to;
* `Stage.Goes` — from a stage the lexer gets to another;
* `goes_space`, `goes_line`, `goes_close` — the ways between two tokens;
* `goes_mark` — the marks of items, keys and values.
-/

namespace Lexer

/-! ### The tokens that follow -/

/-- With fuel for every character that is left, reading on gives these tokens.  The next one is read
    without a fault. -/
def Finishes (l : Lexer) (tokens : Array Token) : Prop :=
  ∀ fuel, l.cursor.left < fuel → run fuel l = tokens ∧ ∃ found, l.next fuel = .ok found

/-- Reading on from one state gives what reading on from another gives. -/
def Leads (l m : Lexer) : Prop := ∀ tokens, m.Finishes tokens → l.Finishes tokens

variable {l m k : Lexer}

/-- One state after another. -/
theorem Leads.trans (h : l.Leads m) (h' : m.Leads k) : l.Leads k := fun tokens hk =>
  h tokens (h' tokens hk)

/-- A token is read. -/
theorem leads_of_next (h : ∀ fuel, l.cursor.left < fuel → l.next fuel = .ok (m, false))
    (hless : m.cursor.left < l.cursor.left) : l.Leads m := by
  intro tokens hm fuel hfuel
  obtain ⟨fuel, rfl⟩ := Nat.exists_eq_succ_of_ne_zero (Nat.ne_zero_of_lt hfuel)
  refine ⟨?_, _, h _ hfuel⟩
  rw [run_succ, h _ hfuel]
  exact (hm fuel (by omega)).1

/-- The run goes on alike where the next token is read alike. -/
theorem run_congr {fuel : Nat} {found : Lexer × Bool} (h : l.next (fuel + 1) = .ok found)
    (h' : m.next (fuel + 1) = .ok found) : run (fuel + 1) l = run (fuel + 1) m := by
  rw [run_succ, run_succ, h, h']

/-- What the next token is read from changes nothing else. -/
theorem leads_of_same (h : ∀ fuel, l.cursor.left < fuel → l.next fuel = m.next fuel)
    (hle : m.cursor.left ≤ l.cursor.left) : l.Leads m := by
  intro tokens hm fuel hfuel
  obtain ⟨hrun, found, hnext⟩ := hm fuel (Nat.lt_of_le_of_lt hle hfuel)
  refine ⟨?_, found, (h fuel hfuel).trans hnext⟩
  obtain ⟨fuel, rfl⟩ := Nat.exists_eq_succ_of_ne_zero (Nat.ne_zero_of_lt hfuel)
  exact (run_congr ((h _ hfuel).trans hnext) hnext).trans hrun

/-- At the end of the text nothing follows. -/
theorem finishes_of_ended (h : ∀ fuel, l.cursor.left < fuel → l.next fuel = .ok (m, true)) :
    l.Finishes m.tokens := by
  intro fuel hfuel
  obtain ⟨fuel, rfl⟩ := Nat.exists_eq_succ_of_ne_zero (Nat.ne_zero_of_lt hfuel)
  refine ⟨?_, _, h _ hfuel⟩
  rw [run_succ, h _ hfuel]
  rfl

/-! ### Up to the next token -/

/-- The state in which the next token is found. -/
def arrive (fuel : Nat) (l : Lexer) : Except Fault Lexer :=
  (skipToToken fuel l.skipOrderMark).dropStaleKeys

/-- What happens to that state. -/
theorem next_eq (fuel : Nat) (l : Lexer) : l.next fuel = arrive fuel l >>= fun l =>
    let l := closeBlocks l.cursor.column l
    if l.cursor.atEnd then (do pure (← l.streamEnd, true))
    else (do pure (← l.token, false)) := rfl

/-- Nothing else matters. -/
theorem next_congr {fuel : Nat} (h : arrive fuel l = arrive fuel m) :
    l.next fuel = m.next fuel := by
  rw [next_eq, next_eq, h]

/-- The mark of the byte order stands nowhere else. -/
theorem skipOrderMark_eq (h : l.cursor.peek ≠ '\ufeff') : l.skipOrderMark = l := by
  rw [skipOrderMark, beq_eq_false_iff_ne.mpr h, Bool.and_false, if_neg Bool.false_ne_true]

/-- Where a token starts nothing is skipped. -/
theorem skipToToken_here {fuel : Nat} (hfuel : 0 < fuel) (hspace : l.cursor.peek ≠ ' ')
    (hhash : l.cursor.peek ≠ '#') (hbreak : isBreak l.cursor.peek = false) :
    skipToToken fuel l = l := by
  obtain ⟨fuel, rfl⟩ := Nat.exists_eq_succ_of_ne_zero (Nat.ne_of_gt hfuel)
  rw [skipToToken, Cursor.skipSpaces_none hspace, beq_eq_false_iff_ne.mpr hhash,
    if_neg Bool.false_ne_true, hbreak, if_neg Bool.false_ne_true]

/-- Possible keys that are stale are forgotten, unless one is required. -/
theorem dropStaleKeys_eq (h : ∀ entry ∈ l.possibleKeys,
    entry.2.required = false ∧ entry.2.line ≠ l.cursor.line) :
    l.dropStaleKeys = .ok { l with possibleKeys := [] } := by
  have hstale : ∀ entry ∈ l.possibleKeys, l.isStale entry.2 = true := fun entry hentry => by
    rw [isStale, bne_iff_ne.mpr (h entry hentry).2, Bool.true_or]
  have hnone : (l.possibleKeys.any fun entry => l.isStale entry.2 && entry.2.required) = false := by
    rw [List.any_eq_false]
    intro entry hentry
    rw [(h entry hentry).1, Bool.and_false]
    exact Bool.false_ne_true
  have hfilter : (l.possibleKeys.filter fun entry => !l.isStale entry.2) = [] :=
    List.filter_eq_nil_iff.mpr fun entry hentry => by
      rw [hstale entry hentry]
      exact Bool.false_ne_true
  rw [dropStaleKeys, hnone, if_neg Bool.false_ne_true, hfilter]

end Lexer

/-- The texts that start with a token, or are empty. -/
def Starts (rest : List Char) : Prop := ∀ x ∈ rest.head?, x ≠ ' ' ∧ x ≠ '#' ∧ IsInline x

/-- What the next character is not. -/
theorem Starts.peek {c : Cursor} (h : Starts c.rest) :
    c.peek ≠ ' ' ∧ c.peek ≠ '#' ∧ IsInline c.peek := by
  cases hrest : c.rest with
  | nil =>
    rw [c.peek_nil hrest]
    exact ⟨by decide, by decide, by decide, by decide⟩
  | cons x rest =>
    rw [c.peek_cons hrest]
    exact h x (by rw [hrest]; rfl)

namespace Lexer

variable {l m : Lexer}

/-- **At the start of a token** the possible keys of earlier lines are forgotten. -/
theorem arrive_here {fuel : Nat} (hfuel : 0 < fuel) (hstart : Starts l.cursor.rest)
    (hkeys : ∀ entry ∈ l.possibleKeys,
      entry.2.required = false ∧ entry.2.line ≠ l.cursor.line) :
    arrive fuel l = .ok { l with possibleKeys := [] } := by
  obtain ⟨hspace, hhash, hbreak, hmark⟩ := hstart.peek
  rw [arrive, skipOrderMark_eq hmark, skipToToken_here hfuel hspace hhash hbreak,
    dropStaleKeys_eq hkeys]

/-- They may be forgotten before. -/
theorem leads_stale (hstart : Starts l.cursor.rest) (hkeys : ∀ entry ∈ l.possibleKeys,
      entry.2.required = false ∧ entry.2.line ≠ l.cursor.line) :
    l.Leads { l with possibleKeys := [] } := by
  refine leads_of_same (fun fuel hfuel => next_congr ?_) (Nat.le_refl _)
  have hpos := Nat.zero_lt_of_lt hfuel
  rw [arrive_here hpos hstart hkeys,
    arrive_here (l := { l with possibleKeys := [] }) hpos hstart (List.forall_mem_nil _)]

/-- Spaces before a token are skipped. -/
theorem skipToToken_spaces {fuel n : Nat} {rest : List Char} (hfuel : 0 < fuel)
    (hrest : l.cursor.rest = List.replicate n ' ' ++ rest) (hstart : Starts rest) :
    skipToToken fuel l = { l with cursor := l.cursor.advance n } := by
  obtain ⟨fuel, rfl⟩ := Nat.exists_eq_succ_of_ne_zero (Nat.ne_of_gt hfuel)
  have hbehind : (l.cursor.advance n).rest = rest := by
    rw [Cursor.rest_advance, hrest, List.drop_left' (List.length_replicate ..)]
  obtain ⟨-, hhash, hbreak, -⟩ := Starts.peek (c := l.cursor.advance n) (hbehind ▸ hstart)
  rw [skipToToken, Cursor.skipSpaces_eq hrest fun x hx => (hstart x hx).1,
    beq_eq_false_iff_ne.mpr hhash, if_neg Bool.false_ne_true, hbreak, if_neg Bool.false_ne_true]

/-- **A space** before a token is skipped. -/
theorem leads_space {rest : List Char} (hrest : l.cursor.rest = ' ' :: rest) (hstart : Starts rest)
    (hkeys : l.possibleKeys = []) : l.Leads { l with cursor := l.cursor.advance 1 } := by
  have hbehind : (l.cursor.advance 1).rest = rest := by
    rw [Cursor.rest_advance, hrest]
    rfl
  have hmark : l.cursor.peek ≠ '\ufeff' := by
    rw [l.cursor.peek_cons hrest]
    decide
  refine leads_of_same (fun fuel hfuel => next_congr ?_) ?_
  · have hpos := Nat.zero_lt_of_lt hfuel
    rw [arrive_here (l := { l with cursor := l.cursor.advance 1 }) hpos (hbehind ▸ hstart)
        (hkeys ▸ List.forall_mem_nil _),
      arrive, skipOrderMark_eq hmark, skipToToken_spaces (n := 1) hpos hrest hstart,
      dropStaleKeys_eq (l := { l with cursor := l.cursor.advance 1 })
        (hkeys ▸ List.forall_mem_nil _)]
  · exact (Cursor.left_advance _ 1).trans_le (Nat.sub_le _ _)

/-- A line break is skipped. -/
theorem skipToToken_break {fuel : Nat} {rest : List Char} (hrest : l.cursor.rest = '\n' :: rest) :
    skipToToken (fuel + 1) l =
      skipToToken fuel { l with
        cursor := l.cursor.advance 1, keyAllowed := l.keyAllowed || !l.inFlow } := by
  have hpeek := l.cursor.peek_cons hrest
  have hspace : l.cursor.peek ≠ ' ' := by
    rw [hpeek]
    decide
  have hhash : (l.cursor.peek == '#') = false := by
    rw [hpeek]
    rfl
  have hbreak : isBreak l.cursor.peek = true := by
    rw [hpeek]
    rfl
  rw [skipToToken, Cursor.skipSpaces_none hspace, hhash, if_neg Bool.false_ne_true, hbreak,
    if_pos rfl, Cursor.lineBreak_eq hrest (.inl rfl)]
  rfl

/-- **A line break** and the indentation behind it are skipped, and a key may start there. -/
theorem leads_line {k : Nat} {rest : List Char}
    (hrest : l.cursor.rest = '\n' :: (List.replicate k ' ' ++ rest)) (hstart : Starts rest)
    (hflow : l.flowLevel = 0) (hkeys : ∀ entry ∈ l.possibleKeys,
      entry.2.required = false ∧ entry.2.line ≤ l.cursor.line) :
    l.Leads { l with
      cursor := l.cursor.advance (1 + k), keyAllowed := true, possibleKeys := [] } := by
  have hbehind := Cursor.rest_line hrest
  have hline := (Cursor.place_line hrest).1
  have hmark : l.cursor.peek ≠ '\ufeff' := by
    rw [l.cursor.peek_cons hrest]
    decide
  have hallowed : (l.keyAllowed || !l.inFlow) = true := by
    rw [inFlow, hflow]
    exact Bool.or_true _
  -- Skipping takes the break and all spaces behind it, and leaves what comes next as it is.
  refine leads_of_same (fun fuel hfuel => next_congr ?_) ?_
  · have hskip : skipToToken fuel l =
        { l with cursor := l.cursor.advance (1 + k), keyAllowed := true } := by
      obtain ⟨fuel, rfl⟩ : ∃ more, fuel = more + 1 + 1 := by
        rw [Cursor.left, hrest, List.length_cons] at hfuel
        exact ⟨fuel - 2, by omega⟩
      have hnext : (l.cursor.advance 1).rest = List.replicate k ' ' ++ rest := by
        rw [Cursor.rest_advance, hrest]
        rfl
      rw [skipToToken_break hrest, hallowed, skipToToken_spaces (Nat.succ_pos _) hnext hstart,
        Cursor.advance_add]
    rw [arrive_here
        (l := { l with
          cursor := l.cursor.advance (1 + k), keyAllowed := true, possibleKeys := [] })
        (Nat.zero_lt_of_lt hfuel) (hbehind ▸ hstart) (List.forall_mem_nil _),
      arrive, skipOrderMark_eq hmark, hskip,
      dropStaleKeys_eq (l := { l with cursor := l.cursor.advance (1 + k), keyAllowed := true })]
    intro entry hentry
    obtain ⟨hrequired, hle⟩ := hkeys entry hentry
    refine ⟨hrequired, ?_⟩
    dsimp only
    omega
  · exact (Cursor.left_advance _ _).trans_le (Nat.sub_le _ _)

/-! ### The next token -/

/-- Blocks that are not deeper stay open. -/
theorem closeBlocks_eq {column : Int} (h : l.indent ≤ column) : closeBlocks column l = l := by
  unfold closeBlocks
  split
  · rfl
  · cases l.indents.length with
    | zero => rfl
    | succ count => exact if_neg (Int.not_lt.mpr h)

/-- A deeper block is closed, and then the others. -/
theorem closeBlocks_deeper {column j : Int} {blocks : List Int} (hflow : l.inFlow = false)
    (h : column < l.indent) (hindents : l.indents = j :: blocks) :
    closeBlocks column l =
      closeBlocks column { l.emit .blockClose with indent := j, indents := blocks } := by
  have hflow' : inFlow { l.emit .blockClose with indent := j, indents := blocks } = false := hflow
  rw [closeBlocks, closeBlocks, hflow, hflow', hindents, if_neg Bool.false_ne_true,
    if_neg Bool.false_ne_true, List.length_cons, closeBlocks.go, if_pos h, hindents]
  rfl

/-- **The next token** is read where it is found. -/
theorem next_of_arrive {fuel : Nat} (h : arrive fuel l = .ok m) (hend : m.cursor.rest ≠ [])
    (hblock : m.inFlow = true ∨ m.indent ≤ m.cursor.column) :
    l.next fuel = m.token.map (·, false) := by
  have hclose : closeBlocks m.cursor.column m = m := by
    rcases hblock with hflow | hle
    · exact if_pos hflow
    · exact closeBlocks_eq hle
  have hmore : m.cursor.atEnd = false := List.isEmpty_eq_false_iff.mpr hend
  rw [next_eq, h]
  show (if (closeBlocks m.cursor.column m).cursor.atEnd = true then _ else _) = _
  rw [hclose, hmore, if_neg Bool.false_ne_true]
  cases m.token <;> rfl

/-- **A token is read** where it starts. -/
theorem leads_token (hstart : Starts l.cursor.rest) (hmore : l.cursor.rest ≠ [])
    (hkeys : l.possibleKeys = []) (hblock : l.indent ≤ l.cursor.column)
    (htoken : l.token = .ok m) (hless : m.cursor.left < l.cursor.left) : l.Leads m := by
  refine leads_of_next (fun fuel hfuel => ?_) hless
  have harrive := arrive_here (Nat.zero_lt_of_lt hfuel) hstart (hkeys ▸ List.forall_mem_nil _)
  have hsame : ({ l with possibleKeys := [] } : Lexer) = l := by
    rw [← hkeys]
  rw [hsame] at harrive
  rw [next_of_arrive harrive hmore (.inr hblock), htoken]
  rfl

/-! ### Keys and blocks -/

/-- Where no key is possible, none is given up. -/
theorem dropKey_eq {l : Lexer} (hkeys : l.possibleKeys = []) : l.dropKey = .ok l := by
  obtain ⟨cursor, found, flowLevel, indent, indents, keyAllowed, possibleKeys⟩ := l
  obtain rfl : possibleKeys = [] := hkeys
  rfl

/-- A mark is read where a key may start. -/
theorem blockMark_eq {l : Lexer} (hflow : l.flowLevel = 0) (hkeys : l.possibleKeys = [])
    (hallowed : l.keyAllowed = true) (block mark : Token) :
    l.blockMark block mark true =
      .ok { (l.openBlock l.cursor.column l.tokens.size block).emit mark with
        cursor := l.cursor.step, keyAllowed := true } := by
  have hinFlow : l.inFlow = false := by
    rw [inFlow, hflow]
    rfl
  -- Whether a block is opened or not, no key is remembered, and the cursor stays.
  have hopened : (l.openBlock l.cursor.column l.tokens.size block).possibleKeys = [] ∧
      (l.openBlock l.cursor.column l.tokens.size block).cursor = l.cursor := by
    unfold openBlock
    split
    · exact ⟨hkeys, rfl⟩
    · exact ⟨hkeys, rfl⟩
  rw [blockMark, hallowed, Bool.or_true, hinFlow]
  show ((l.openBlock l.cursor.column l.tokens.size block).dropKey >>= _) = _
  rw [dropKey_eq hopened.1]
  show Except.ok _ = Except.ok _
  rw [hopened.2]

/-- What is put in between two lists. -/
theorem insertIdx_append (before after : List Token) (token : Token) :
    (before ++ after).insertIdx before.length token = before ++ token :: after := by
  induction before with
  | nil => rfl
  | cons first before ih =>
    rw [List.cons_append, List.length_cons, List.insertIdx_succ_cons, ih]
    rfl

/-- A token is put in between others. -/
theorem toList_emitAt {l : Lexer} {before after : List Token}
    (h : l.tokens.toList = before ++ after) (token : Token) :
    (l.emitAt before.length token).tokens.toList = before ++ token :: after := by
  have hle : before.length ≤ l.tokens.size := by
    rw [← Array.length_toList, h, List.length_append]
    omega
  rw [emitAt, Array.insertIdxIfInBounds]
  dsimp only
  rw [dif_pos hle, Array.toList_insertIdx, h, insertIdx_append]

end Lexer

/-! ### Stages -/

/-- What the state between two tokens comes down to, outside of brackets. -/
structure Stage where
  /-- What is left. -/
  rest : List Char
  column : Nat
  /-- The tokens so far. -/
  tokens : List Token
  /-- The columns of the open blocks, the innermost first. -/
  blocks : List Int
  /-- Whether a key may start here without a mark. -/
  allowed : Bool

/-- A state is at a stage, and no key is possible before. -/
structure Lexer.IsAt (l : Lexer) (s : Stage) : Prop where
  rest : l.cursor.rest = s.rest
  column : l.cursor.column = s.column
  tokens : l.tokens.toList = s.tokens
  blocks : l.indent :: l.indents = s.blocks
  allowed : l.keyAllowed = s.allowed
  flow : l.flowLevel = 0
  keys : l.possibleKeys = []

namespace Stage

open Lexer

/-- From every state at a stage the lexer gets to another stage. -/
def Goes (s t : Stage) : Prop := ∀ l : Lexer, l.IsAt s → ∃ m, l.Leads m ∧ m.IsAt t

variable {s t u : Stage}

/-- One stage after another. -/
theorem Goes.trans (h : s.Goes t) (h' : t.Goes u) : s.Goes u := by
  intro l hl
  obtain ⟨m, hlm, hm⟩ := h l hl
  obtain ⟨k, hmk, hk⟩ := h' m hm
  exact ⟨k, hlm.trans hmk, hk⟩

variable {rest : List Char} {column : Nat} {tokens : List Token} {blocks : List Int} {i j : Int}
  {allowed : Bool}

/-- Over a space. -/
theorem goes_space (hstart : Starts rest) :
    Goes ⟨' ' :: rest, column, tokens, blocks, allowed⟩
      ⟨rest, column + 1, tokens, blocks, allowed⟩ := by
  intro l hl
  refine ⟨_, leads_space hl.rest hstart hl.keys, ?_, ?_, hl.tokens, hl.blocks,
    hl.allowed, hl.flow, hl.keys⟩
  · show (l.cursor.advance 1).rest = rest
    rw [Cursor.rest_advance, hl.rest]
    rfl
  · show l.cursor.step.column = column + 1
    rw [(Cursor.step_inline hl.rest ⟨by decide, by decide⟩).2, hl.column]

/-- To the next line. -/
theorem goes_line {k : Nat} (hstart : Starts rest) :
    Goes ⟨'\n' :: (List.replicate k ' ' ++ rest), column, tokens, blocks, allowed⟩
      ⟨rest, k, tokens, blocks, true⟩ := by
  intro l hl
  exact ⟨_, leads_line hl.rest hstart hl.flow (hl.keys ▸ List.forall_mem_nil _),
    Cursor.rest_line hl.rest, (Cursor.place_line hl.rest).2, hl.tokens, hl.blocks,
      rfl, hl.flow, rfl⟩

/-- Out of a block that is deeper. -/
theorem goes_close (hstart : Starts rest) (hi : (column : Int) < i) :
    Goes ⟨rest, column, tokens, i :: j :: blocks, allowed⟩
      ⟨rest, column, tokens ++ [Token.blockClose], j :: blocks, allowed⟩ := by
  intro l hl
  obtain ⟨hindent, hindents⟩ := List.cons.inj hl.blocks
  have hstart' : Starts l.cursor.rest := hl.rest ▸ hstart
  have hkeys : ∀ entry ∈ l.possibleKeys,
      entry.2.required = false ∧ entry.2.line ≠ l.cursor.line :=
        hl.keys ▸ List.forall_mem_nil _
  have hflow : l.inFlow = false := by
    rw [inFlow, hl.flow]
    rfl
  refine ⟨{ l.emit .blockClose with indent := j, indents := blocks }, ?_, hl.rest, hl.column, ?_,
    rfl, hl.allowed, hl.flow, hl.keys⟩
  -- The column is less than that of the block, so this is closed before anything is read.
  · refine leads_of_same (fun fuel hfuel => ?_) (Nat.le_refl _)
    have hpos := Nat.zero_lt_of_lt hfuel
    have hdeeper : ((l.cursor.column : Nat) : Int) < l.indent := by
      rw [hl.column, hindent]
      exact hi
    rw [next_eq, next_eq, arrive_here hpos hstart' hkeys,
      arrive_here (l := { l.emit .blockClose with indent := j, indents := blocks }) hpos hstart'
        hkeys]
    show (fun l : Lexer => if l.cursor.atEnd then (do pure (← l.streamEnd, true))
        else (do pure (← l.token, false)))
      (closeBlocks l.cursor.column { l with possibleKeys := [] }) = _
    rw [closeBlocks_deeper (l := { l with possibleKeys := [] }) hflow hdeeper hindents]
    rfl
  · show (l.tokens.push .blockClose).toList = _
    rw [Array.toList_push, hl.tokens]

/-! ### Marks -/

/-- The marks of items, keys and values, with the blocks that they open. -/
inductive IsMark : Char → Token → Token → Prop
  | dash : IsMark '-' .sequenceOpen .dash
  | key : IsMark '?' .mappingOpen .key
  | value : IsMark ':' .mappingOpen .value

/-- A mark in front of a space is read as one. -/
theorem IsMark.token_eq {x : Char} {block mark : Token} (h : IsMark x block mark) {l : Lexer}
    (hrest : l.cursor.rest = x :: ' ' :: rest) (hflow : l.flowLevel = 0)
    (hkeys : l.possibleKeys = []) : l.token = l.blockMark block mark true := by
  have hinFlow : l.inFlow = false := by
    rw [inFlow, hflow]
    rfl
  have hkey : l.possibleKey? = none := by
    rw [possibleKey?, hkeys]
    rfl
  have hmark : l.cursor.atMark '-' = false := by
    rw [Cursor.atMark, hrest, Bool.and_eq_false_iff, List.take_succ_cons, List.take_succ_cons]
    refine .inl (beq_eq_false_iff_ne.mpr fun heq => ?_)
    have hsecond := (List.cons.inj (List.cons.inj heq).2).1
    exact absurd hsecond (by decide)
  unfold token
  dsimp only
  rw [l.cursor.peek_cons hrest, l.cursor.ahead_one hrest, hmark, hinFlow]
  -- The three marks are a dash, a question mark and a colon.
  cases h with
  | dash =>
    simp only [Bool.and_false]
    rfl
  | key =>
    show l.key = _
    rw [Lexer.key, hinFlow]
    rfl
  | value =>
    show l.value = _
    rw [Lexer.value, hkey, hinFlow]
    rfl

/-- A mark is read, and opens a block unless one is open there. -/
theorem leads_mark {x : Char} {block mark : Token} (h : IsMark x block mark) {l : Lexer}
    (hl : l.IsAt ⟨x :: ' ' :: rest, column, tokens, i :: blocks, true⟩) (hi : i ≤ column) :
    l.Leads { (l.openBlock column l.tokens.size block).emit mark with
      cursor := l.cursor.step, keyAllowed := true } := by
  obtain ⟨hindent, -⟩ := List.cons.inj hl.blocks
  have hstart : Starts l.cursor.rest := by
    rw [hl.rest]
    intro y hy
    obtain rfl := Option.some.inj hy
    cases h <;> decide
  have hmore : l.cursor.rest ≠ [] := by
    rw [hl.rest]
    exact List.cons_ne_nil _ _
  have hblock : l.indent ≤ l.cursor.column := by
    rw [hindent, hl.column]
    exact hi
  -- Reading the token takes a character, so the state gets smaller.
  refine leads_token hstart hmore hl.keys hblock ?_ ?_
  · rw [h.token_eq hl.rest hl.flow hl.keys, blockMark_eq hl.flow hl.keys hl.allowed, hl.column]
  · show l.cursor.step.left < l.cursor.left
    have hpos : 0 < l.cursor.left := List.length_pos_iff.mpr hmore
    rw [Cursor.left_step]
    omega

/-- Behind a mark. -/
theorem place_mark {x : Char} {block mark : Token} (h : IsMark x block mark) {l : Lexer}
    (hl : l.IsAt ⟨x :: ' ' :: rest, column, tokens, blocks, allowed⟩) :
    l.cursor.step.rest = ' ' :: rest ∧ l.cursor.step.column = column + 1 := by
  have hx : IsInline x := by cases h <;> decide
  rw [Cursor.rest_step, hl.rest, (Cursor.step_inline hl.rest hx).2, hl.column]
  exact ⟨rfl, rfl⟩

/-- **A mark opens a block** that is deeper. -/
theorem goes_mark_first {x : Char} {block mark : Token} (h : IsMark x block mark)
    (hi : i < (column : Int)) :
    Goes ⟨x :: ' ' :: rest, column, tokens, i :: blocks, true⟩
      ⟨' ' :: rest, column + 1, tokens ++ [block, mark], column :: i :: blocks, true⟩ := by
  intro l hl
  obtain ⟨hindent, hindents⟩ := List.cons.inj hl.blocks
  obtain ⟨hrest, hcolumn⟩ := place_mark h hl
  have hopened : l.openBlock column l.tokens.size block =
      { l.emitAt l.tokens.size block with indent := column, indents := l.indent :: l.indents } :=
    if_pos (hindent ▸ hi)
  have hleads := leads_mark h hl (Int.le_of_lt hi)
  rw [hopened] at hleads
  -- The block is deeper, so its token is put before the mark and its column on the stack.
  refine ⟨_, hleads, hrest, hcolumn, ?_, ?_, rfl, hl.flow, hl.keys⟩
  · have htokens : l.tokens.toList = tokens := hl.tokens
    have hsplit : l.tokens.toList = tokens ++ [] := by rw [List.append_nil, htokens]
    have hput := toList_emitAt hsplit block
    rw [← htokens, Array.length_toList] at hput
    show ((l.emitAt l.tokens.size block).tokens.push mark).toList = _
    rw [Array.toList_push, hput, List.append_assoc, htokens]
    rfl
  · show (column : Int) :: l.indent :: l.indents = _
    rw [hindent, hindents]

/-- **A mark goes on** with the block at its column. -/
theorem goes_mark_next {x : Char} {block mark : Token} (h : IsMark x block mark) :
    Goes ⟨x :: ' ' :: rest, column, tokens, column :: blocks, true⟩
      ⟨' ' :: rest, column + 1, tokens ++ [mark], column :: blocks, true⟩ := by
  intro l hl
  obtain ⟨hindent, hindents⟩ := List.cons.inj hl.blocks
  obtain ⟨hrest, hcolumn⟩ := place_mark h hl
  have hopened : l.openBlock column l.tokens.size block = l :=
    if_neg (hindent ▸ Int.lt_irrefl _)
  have hleads := leads_mark h hl (Int.le_refl _)
  rw [hopened] at hleads
  refine ⟨_, hleads, hrest, hcolumn, ?_, hl.blocks, rfl, hl.flow, hl.keys⟩
  show (l.tokens.push mark).toList = _
  rw [Array.toList_push, hl.tokens]

/-- The token that opens a block, if none is open at its column. -/
def opener (block : Token) (i : Int) (column : Nat) : List Token :=
  if i < column then [block] else []

/-- The blocks around the block at a column, when `i :: blocks` were open before. -/
def around (i : Int) (blocks : List Int) (column : Nat) : List Int :=
  if i < column then i :: blocks else blocks

/-- **A mark** is read inside the block at its column. -/
theorem goes_mark {x : Char} {block mark : Token} (h : IsMark x block mark)
    (hi : i ≤ (column : Int)) :
    Goes ⟨x :: ' ' :: rest, column, tokens, i :: blocks, true⟩
      ⟨' ' :: rest, column + 1, tokens ++ (opener block i column ++ [mark]),
        column :: around i blocks column, true⟩ := by
  rcases Int.lt_or_eq_of_le hi with hlt | rfl
  · rw [opener, around, if_pos hlt, if_pos hlt]
    exact goes_mark_first h hlt
  · rw [opener, around, if_neg (Int.lt_irrefl _), if_neg (Int.lt_irrefl _)]
    exact goes_mark_next h

end Stage
end PipelineCompiler.Yaml
