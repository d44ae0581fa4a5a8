import PipelineCompiler.Proofs.Yaml.Lexeme
import PipelineCompiler.Yaml.Lexer

namespace PipelineCompiler.Yaml

/-!
# The texts of tokens

Every token with a text takes as many characters at least, so all texts of tokens together are no
longer than the text that they are read from.

* `textsOf`, `textLength` — the texts of tokens, and their length;
* `Lexer.extent` — the length of the texts so far, and of what is left;
* `Lexer.extent_next` — a token does not raise it;
* `extent_scan` — the texts of all tokens.
-/

/-- The texts of tokens. -/
def textsOf (tokens : List Token) : List String := tokens.filterMap Token.text?

/-- The length of the texts of tokens. -/
def textLength (tokens : List Token) : Nat := ((textsOf tokens).map String.length).sum

/-- The texts of tokens in two parts. -/
theorem textLength_append (xs ys : List Token) :
    textLength (xs ++ ys) = textLength xs + textLength ys := by
  simp [textLength, textsOf]

/-- A token without a text. -/
theorem textLength_of_none {token : Token} (h : token.text? = none) : textLength [token] = 0 := by
  simp [textLength, textsOf, h]

/-- A token without a text may stand anywhere. -/
theorem textLength_insertIdx {token : Token} (h : token.text? = none) (tokens : List Token)
    (place : Nat) : textLength (tokens.insertIdx place token) = textLength tokens := by
  induction tokens generalizing place with
  | nil =>
    cases place with
    | zero => exact textLength_of_none h
    | succ place => rfl
  | cons first rest ih =>
    cases place with
    | zero =>
      rw [List.insertIdx_zero, ← List.singleton_append, textLength_append, textLength_of_none h,
        Nat.zero_add]
    | succ place =>
      rw [List.insertIdx_succ_cons, ← List.singleton_append, textLength_append, ih,
        ← textLength_append, List.singleton_append]

namespace Lexer

variable (l : Lexer)

/-- The length of the texts so far, and of what is left. -/
def extent : Nat := textLength l.tokens.toList + l.cursor.left

/-- A token without a text adds nothing. -/
theorem extent_emit {token : Token} (h : token.text? = none) :
    (l.emit token).extent = l.extent := by
  rw [extent, emit]
  simp [textLength_append, textLength_of_none h, extent]

/-- Neither does it when it is put in. -/
theorem extent_emitAt {token : Token} (h : token.text? = none) (place : Nat) :
    (l.emitAt place token).extent = l.extent := by
  rw [extent, emitAt, extent]
  unfold Array.insertIdxIfInBounds
  dsimp only
  split
  · rw [Array.toList_insertIdx, textLength_insertIdx h]
  · rfl

variable {l} {l' : Lexer}

/-- What is left may become less. -/
theorem extent_cursor {cursor : Cursor} (h : cursor.left ≤ l.cursor.left) (keyAllowed : Bool) :
    ({ l with cursor, keyAllowed } : Lexer).extent ≤ l.extent :=
  Nat.add_le_add_left h _

/-- The text of a scalar is taken from what is left. -/
theorem extent_scalar {text : String} {plain : Bool} {cursor : Cursor}
    (h : text.length + cursor.left ≤ l.cursor.left) (keyAllowed : Bool) :
    ({ l.emit (.scalar text plain) with cursor, keyAllowed } : Lexer).extent ≤ l.extent := by
  have hone : textLength [.scalar text plain] = text.length := by
    simp [textLength, textsOf, Token.text?]
  have htokens : textLength (l.emit (.scalar text plain)).tokens.toList =
      textLength l.tokens.toList + text.length := by
    rw [emit]
    simp only [Array.toList_push, textLength_append, hone]
  rw [extent, extent, htokens]
  dsimp only
  omega

/-! ### Keys and blocks -/

/-- A possible key that is given up changes nothing else. -/
theorem extent_dropKey (h : l.dropKey = .ok l') : l'.extent = l.extent := by
  unfold dropKey at h
  split at h
  · cases h
  · exact Except.ok.inj h ▸ rfl

/-- Neither do keys that are stale. -/
theorem extent_dropStaleKeys (h : l.dropStaleKeys = .ok l') : l'.extent = l.extent := by
  unfold dropStaleKeys at h
  split at h
  · cases h
  · exact Except.ok.inj h ▸ rfl

/-- A possible key that is remembered changes nothing else. -/
theorem saveKey_eq_ok (h : l.saveKey = .ok l') : l'.extent = l.extent ∧ l'.cursor = l.cursor := by
  unfold saveKey at h
  split at h
  · obtain ⟨dropped, hdropped, h⟩ := bind_eq_ok.mp h
    obtain rfl := Except.ok.inj h
    have hextent := extent_dropKey hdropped
    refine ⟨hextent, ?_⟩
    unfold dropKey at hdropped
    split at hdropped
    · cases hdropped
    · exact Except.ok.inj hdropped ▸ rfl
  · exact Except.ok.inj h ▸ ⟨rfl, rfl⟩

/-- Closing blocks. -/
theorem extent_closeBlocks (column : Int) (l : Lexer) :
    (l.closeBlocks column).extent = l.extent := by
  have hgo : ∀ count (l : Lexer), (closeBlocks.go column count l).extent = l.extent := by
    intro count
    induction count with
    | zero => exact fun _ => rfl
    | succ count ih =>
      intro l
      rw [closeBlocks.go]
      split
      · exact (ih _).trans (extent_emit l rfl)
      · rfl
  unfold closeBlocks
  split
  · rfl
  · exact hgo _ l

/-- Opening a block. -/
theorem extent_openBlock {token : Token} (h : token.text? = none) (l : Lexer) (column place : Nat) :
    (l.openBlock column place token).extent = l.extent := by
  unfold openBlock
  split
  · exact extent_emitAt l h place
  · rfl

/-- Blanks, comments and breaks before a token. -/
theorem extent_skipToToken (fuel : Nat) (l : Lexer) : (skipToToken fuel l).extent ≤ l.extent := by
  -- By induction on the fuel; every turn moves the cursor behind a line break.
  induction fuel generalizing l with
  | zero => exact Nat.le_refl _
  | succ fuel ih =>
    rw [skipToToken]
    have hspaces := l.cursor.left_skipWhile (· == ' ')
    rw [← Cursor.skipSpaces] at hspaces
    have hline : (if l.cursor.skipSpaces.peek == '#' then l.cursor.skipSpaces.skipLine
        else l.cursor.skipSpaces).left ≤ l.cursor.left := by
      split
      · exact Nat.le_trans (Cursor.left_skipWhile _ _) hspaces
      · exact hspaces
    generalize (if l.cursor.skipSpaces.peek == '#' then l.cursor.skipSpaces.skipLine
        else l.cursor.skipSpaces) = c at hline
    split
    · have hbreak := c.left_lineBreak
      exact Nat.le_trans (ih _) (extent_cursor (by omega) _)
    · exact extent_cursor hline l.keyAllowed

/-! ### Tokens -/

/-- A token without a text whose characters are taken. -/
theorem extent_taken {token : Token} (h : token.text? = none) {cursor : Cursor}
    (hleft : cursor.left ≤ l.cursor.left) (flowLevel : Nat) (keyAllowed : Bool) :
    ({ l.emit token with cursor, flowLevel, keyAllowed } : Lexer).extent ≤ l.extent := by
  calc ({ l.emit token with cursor, flowLevel, keyAllowed } : Lexer).extent
      ≤ (l.emit token).extent := Nat.add_le_add_left hleft _
    _ = l.extent := extent_emit l h

/-- A step takes no more than there is. -/
theorem left_step_le (c : Cursor) : c.step.left ≤ c.left := by
  rw [c.left_step]
  omega

/-- The end of the text. -/
theorem extent_streamEnd (h : l.streamEnd = .ok l') : l'.extent ≤ l.extent := by
  obtain ⟨dropped, hdropped, h⟩ := bind_eq_ok.mp h
  obtain rfl := Except.ok.inj h
  exact Nat.le_of_eq ((extent_emit _ rfl).trans ((extent_dropKey hdropped).trans
    (extent_closeBlocks _ _)))

/-- A directive. -/
theorem extent_directive (h : l.directive = .ok l') : l'.extent ≤ l.extent := by
  obtain ⟨dropped, hdropped, h⟩ := bind_eq_ok.mp h
  obtain ⟨⟨token, cursor⟩, hread, h⟩ := bind_eq_ok.mp h
  obtain rfl := Except.ok.inj h
  obtain ⟨htext, hleft⟩ := Lexeme.left_directive hread
  have hextent := extent_dropKey hdropped
  rw [extent_closeBlocks] at hextent
  exact hextent ▸ extent_taken htext hleft _ _

/-- The mark of a document. -/
theorem extent_documentMark {token : Token} (htext : token.text? = none)
    (h : l.documentMark token = .ok l') : l'.extent ≤ l.extent := by
  obtain ⟨dropped, hdropped, h⟩ := bind_eq_ok.mp h
  obtain rfl := Except.ok.inj h
  have hextent := extent_dropKey hdropped
  rw [extent_closeBlocks] at hextent
  refine hextent ▸ extent_taken htext ?_ _ _
  rw [Cursor.left_advance]
  omega

/-- An opening bracket or brace. -/
theorem extent_opening {token : Token} (htext : token.text? = none)
    (h : l.opening token = .ok l') : l'.extent ≤ l.extent := by
  obtain ⟨saved, hsaved, h⟩ := bind_eq_ok.mp h
  obtain rfl := Except.ok.inj h
  exact (saveKey_eq_ok hsaved).1 ▸ extent_taken htext (left_step_le _) _ _

/-- A closing bracket or brace. -/
theorem extent_closing {token : Token} (htext : token.text? = none)
    (h : l.closing token = .ok l') : l'.extent ≤ l.extent := by
  obtain ⟨dropped, hdropped, h⟩ := bind_eq_ok.mp h
  obtain ⟨_, -, h⟩ := bind_eq_ok.mp h
  obtain rfl := Except.ok.inj h
  exact extent_dropKey hdropped ▸ extent_taken htext (left_step_le _) _ _

/-- A comma. -/
theorem extent_comma (h : l.comma = .ok l') : l'.extent ≤ l.extent := by
  obtain ⟨dropped, hdropped, h⟩ := bind_eq_ok.mp h
  obtain rfl := Except.ok.inj h
  exact extent_dropKey hdropped ▸ extent_taken rfl (left_step_le _) _ _

/-- The mark of an item or key. -/
theorem extent_blockMark {block mark : Token} (hblock : block.text? = none)
    (hmark : mark.text? = none) {keyAllowed : Bool}
    (h : l.blockMark block mark keyAllowed = .ok l') : l'.extent ≤ l.extent := by
  obtain ⟨_, -, h⟩ := bind_eq_ok.mp h
  obtain ⟨dropped, hdropped, h⟩ := bind_eq_ok.mp h
  obtain rfl := Except.ok.inj h
  have hextent := extent_dropKey hdropped
  have hopened : dropped.extent = l.extent := by
    rw [hextent]
    split
    · rfl
    · exact extent_openBlock hblock _ _ _
  exact hopened ▸ extent_taken hmark (left_step_le _) _ _

/-- The mark of a value. -/
theorem extent_value (h : l.value = .ok l') : l'.extent ≤ l.extent := by
  unfold value at h
  split at h
  next found _ =>
    obtain rfl := Except.ok.inj h
    have hkey : (l.forgetKey.emitAt found.place .key).extent = l.extent :=
      extent_emitAt l.forgetKey rfl _
    refine Nat.le_trans (extent_taken rfl (left_step_le _) _ _) ?_
    rw [← hkey]
    split
    · exact Nat.le_refl _
    · exact Nat.le_of_eq (extent_openBlock rfl _ _ _)
  next => exact extent_blockMark rfl rfl h

/-- An alias or a property. -/
theorem extent_property {read : Cursor → Except Fault (Token × Cursor)}
    (hread : ∀ c token after, read c = .ok (token, after) →
      token.text? = none ∧ after.left ≤ c.left)
    (h : l.property read = .ok l') : l'.extent ≤ l.extent := by
  obtain ⟨saved, hsaved, h⟩ := bind_eq_ok.mp h
  obtain ⟨⟨token, cursor⟩, hfound, h⟩ := bind_eq_ok.mp h
  obtain rfl := Except.ok.inj h
  obtain ⟨htext, hleft⟩ := hread _ _ _ hfound
  exact (saveKey_eq_ok hsaved).1 ▸ extent_taken htext hleft _ _

/-- A quoted scalar. -/
theorem extent_quoted {double : Bool} (h : l.quoted double = .ok l') : l'.extent ≤ l.extent := by
  obtain ⟨saved, hsaved, h⟩ := bind_eq_ok.mp h
  obtain ⟨⟨text, cursor⟩, hfound, h⟩ := bind_eq_ok.mp h
  obtain rfl := Except.ok.inj h
  exact (saveKey_eq_ok hsaved).1 ▸ extent_scalar (Lexeme.length_quoted hfound) _

/-- A block scalar. -/
theorem extent_block {folded : Bool} (h : l.block folded = .ok l') : l'.extent ≤ l.extent := by
  obtain ⟨dropped, hdropped, h⟩ := bind_eq_ok.mp h
  obtain ⟨⟨text, cursor⟩, hfound, h⟩ := bind_eq_ok.mp h
  obtain rfl := Except.ok.inj h
  exact extent_dropKey hdropped ▸ extent_scalar (Lexeme.length_block hfound) _

/-- A plain scalar. -/
theorem extent_plain (h : l.plain = .ok l') : l'.extent ≤ l.extent := by
  obtain ⟨saved, hsaved, h⟩ := bind_eq_ok.mp h
  obtain rfl := Except.ok.inj h
  exact (saveKey_eq_ok hsaved).1 ▸ extent_scalar (Lexeme.length_plain ..) _

/-- A step that may fail does not raise the extent. -/
def Shrinks (l : Lexer) (step : Except Fault Lexer) : Prop :=
  ∀ l', step = .ok l' → l'.extent ≤ l.extent

/-- One of two such steps. -/
theorem Shrinks.ite {condition : Bool} {yes no : Except Fault Lexer} (hyes : l.Shrinks yes)
    (hno : l.Shrinks no) : l.Shrinks (if condition then yes else no) := by
  cases condition with
  | true => exact hyes
  | false => exact hno

/-- **A token takes** as many characters as its text has, at least. -/
theorem shrinks_token (l : Lexer) : l.Shrinks l.token := by
  unfold token
  extract_lets c x next
  -- The characters that begin a token, in the order of the definition; each has its own lemma.
  exact .ite (fun _ => extent_directive) <|
    .ite (fun _ => extent_documentMark rfl) <|
    .ite (fun _ => extent_documentMark rfl) <|
    .ite (fun _ => extent_opening rfl) <|
    .ite (fun _ => extent_opening rfl) <|
    .ite (fun _ => extent_closing rfl) <|
    .ite (fun _ => extent_closing rfl) <|
    .ite (fun _ => extent_comma) <|
    .ite (fun _ => extent_blockMark rfl rfl) <|
    .ite (fun _ => extent_blockMark rfl rfl) <|
    .ite (fun _ => extent_value) <|
    .ite (fun _ => extent_property fun _ _ _ => Lexeme.left_named fun _ => rfl) <|
    .ite (fun _ => extent_property fun _ _ _ => Lexeme.left_named fun _ => rfl) <|
    .ite (fun _ => extent_property fun _ _ _ => Lexeme.left_tagToken) <|
    .ite (fun _ => extent_block) <|
    .ite (fun _ => extent_block) <|
    .ite (fun _ => extent_quoted) <|
    .ite (fun _ => extent_quoted) <|
    .ite (fun _ => extent_plain) fun _ h => nomatch h

/-- **So does the next token**, with what stands before it. -/
theorem extent_next {fuel : Nat} {ended : Bool} (h : l.next fuel = .ok (l', ended)) :
    l'.extent ≤ l.extent := by
  obtain ⟨dropped, hdropped, h⟩ := bind_eq_ok.mp h
  have hmark : l.skipOrderMark.extent ≤ l.extent := by
    unfold skipOrderMark
    split
    · exact extent_cursor (left_step_le _) l.keyAllowed
    · exact Nat.le_refl _
  have hbefore : (dropped.closeBlocks dropped.cursor.column).extent ≤ l.extent := by
    rw [extent_closeBlocks, extent_dropStaleKeys hdropped]
    exact Nat.le_trans (extent_skipToToken _ _) hmark
  dsimp only at h
  -- At the end of the text the stream ends, and otherwise a token is read.
  split at h
  · obtain ⟨found, hfound, h⟩ := bind_eq_ok.mp h
    obtain ⟨rfl, -⟩ := Prod.mk.inj (Except.ok.inj h)
    exact Nat.le_trans (extent_streamEnd hfound) hbefore
  · obtain ⟨found, hfound, h⟩ := bind_eq_ok.mp h
    obtain ⟨rfl, -⟩ := Prod.mk.inj (Except.ok.inj h)
    exact Nat.le_trans (shrinks_token _ _ hfound) hbefore

/-- The tokens so far. -/
theorem textLength_le_extent (l : Lexer) : textLength l.tokens.toList ≤ l.extent :=
  Nat.le_add_right _ _

/-- The tokens that are settled, and the place from which on there are none. -/
theorem textLength_settled (l : Lexer) (fault : Fault) :
    textLength (l.settled.push (.broken fault)).toList ≤ l.extent := by
  refine Nat.le_trans ?_ l.textLength_le_extent
  generalize hcount : (((l.possibleKeys.filter fun entry => !l.isStale entry.2).map
    (·.2.place)).foldl min l.tokens.size) = count
  have hsettled : l.settled.toList = l.tokens.toList.take count := by
    rw [settled, hcount, Array.toList_extract, List.extract_eq_take_drop, List.drop_zero,
      Nat.sub_zero]
  rw [Array.toList_push, textLength_append, textLength_of_none rfl, Nat.add_zero, hsettled]
  calc textLength (l.tokens.toList.take count)
      ≤ textLength (l.tokens.toList.take count) + textLength (l.tokens.toList.drop count) :=
        Nat.le_add_right _ _
    _ = textLength l.tokens.toList := by rw [← textLength_append, List.take_append_drop]

/-- Without fuel there are no more tokens. -/
theorem run_zero (l : Lexer) : run 0 l = l.settled.push (.broken .malformed) := rfl

seal next in
/-- Otherwise the next token is read.  Its reading need not be opened to see this. -/
theorem run_succ (fuel : Nat) (l : Lexer) : run (fuel + 1) l =
    match l.next (fuel + 1) with
    | .ok (l, ended) => if ended then l.tokens else run fuel l
    | .error fault => l.settled.push (.broken fault) := rfl

/-- **The texts of all tokens** are no longer than what they are read from. -/
theorem textLength_run (fuel : Nat) (l : Lexer) :
    textLength (run fuel l).toList ≤ l.extent := by
  induction fuel generalizing l with
  | zero =>
    rw [run_zero]
    exact textLength_settled l _
  | succ fuel ih =>
    rw [run_succ]
    split
    next l' ended hnext =>
      have hle := extent_next hnext
      split
      · exact Nat.le_trans l'.textLength_le_extent hle
      · exact Nat.le_trans (ih l') hle
    next => exact textLength_settled l _

end Lexer

/-- The texts of the tokens of a text are no longer than the text. -/
theorem textLength_scan (text : String) : textLength (Token.scan text) ≤ text.length := by
  unfold Token.scan
  dsimp only
  split
  · refine Nat.le_trans (Lexer.textLength_run _ _) (Nat.le_of_eq ?_)
    rw [Lexer.extent, Cursor.left, String.length_toList]
    exact Nat.zero_add _
  · exact Nat.zero_le _

end PipelineCompiler.Yaml
