import PipelineCompiler.Yaml.Lexeme

namespace PipelineCompiler.Yaml

/-!
# From text to tokens

Indentation and one-line keys are settled here, so that the tokens alone give the structure.
A word may turn out to be a key only when the `:` behind it is met; until then its place among
the tokens is remembered.

* `PossibleKey` — such a place;
* `Lexer` — the cursor, the tokens so far, the open blocks and brackets, the possible keys;
* `Lexer.next` — reads one token;
* `Lexer.settled` — the tokens that nothing can be put between any more;
* `Token.scan` — the tokens of a text.
-/

/-- A place where the mark of a key may have to be put in later. -/
structure PossibleKey where
  /-- How many tokens stand before the place. -/
  place : Nat
  /-- Whether the block around it leaves no other reading. -/
  required : Bool
  index : Nat
  line : Nat
  column : Nat

/-- The state of reading tokens. -/
structure Lexer where
  cursor : Cursor
  tokens : Array Token := #[]
  /-- How many brackets and braces are open. -/
  flowLevel : Nat := 0
  /-- The column of the innermost block; `-1` outside of all blocks. -/
  indent : Int := -1
  /-- The columns of the blocks around it. -/
  indents : List Int := []
  /-- Whether a key may start here without a mark. -/
  keyAllowed : Bool := true
  /-- The possible keys by flow level. -/
  possibleKeys : List (Nat × PossibleKey) := []

namespace Lexer

/-- A key on one line is at most this long. -/
def keyReach : Nat := 1024

/-- Appends a token. -/
def emit (l : Lexer) (token : Token) : Lexer := { l with tokens := l.tokens.push token }

/-- Puts a token in at a place. -/
def emitAt (l : Lexer) (place : Nat) (token : Token) : Lexer :=
  { l with tokens := l.tokens.insertIdxIfInBounds place token }

/-- Whether brackets or braces are open. -/
def inFlow (l : Lexer) : Bool := l.flowLevel != 0

/-- The possible key of the current level. -/
def possibleKey? (l : Lexer) : Option PossibleKey := l.possibleKeys.lookup l.flowLevel

/-- Forgets the possible key of the current level. -/
def forgetKey (l : Lexer) : Lexer :=
  { l with possibleKeys := l.possibleKeys.filter (·.1 != l.flowLevel) }

/-- Gives up the possible key of the current level; a required one must not be given up. -/
def dropKey (l : Lexer) : Except Fault Lexer :=
  if l.possibleKey?.any (·.required) then .error .malformed else .ok l.forgetKey

/-- Whether a possible key is on an earlier line or too far back. -/
def isStale (l : Lexer) (key : PossibleKey) : Bool :=
  key.line != l.cursor.line || keyReach < l.cursor.index - key.index

/-- Gives up the possible keys that are stale. -/
def dropStaleKeys (l : Lexer) : Except Fault Lexer :=
  if l.possibleKeys.any fun entry => l.isStale entry.2 && entry.2.required then .error .malformed
  else .ok { l with possibleKeys := l.possibleKeys.filter fun entry => !l.isStale entry.2 }

/-- Remembers that a key may start here. -/
def saveKey (l : Lexer) : Except Fault Lexer := do
  if l.keyAllowed then
    let l ← l.dropKey
    let key : PossibleKey :=
      { place := l.tokens.size
        required := !l.inFlow && l.indent == (l.cursor.column : Int)
        index := l.cursor.index
        line := l.cursor.line
        column := l.cursor.column }
    pure { l with possibleKeys := (l.flowLevel, key) :: l.possibleKeys }
  else pure l

/-- Closes the blocks that are indented deeper than a column. -/
def closeBlocks (column : Int) (l : Lexer) : Lexer :=
  if l.inFlow then l else go l.indents.length l
where
  /-- Closes `count` blocks at most. -/
  go : (count : Nat) → Lexer → Lexer
    | 0, l => l
    | count + 1, l =>
      if column < l.indent then
        go count { l.emit .blockClose with
          indent := l.indents.head?.getD (-1), indents := l.indents.tail }
      else l

/-- Opens a block at a column, unless one is open there or deeper. -/
def openBlock (l : Lexer) (column : Nat) (place : Nat) (token : Token) : Lexer :=
  if l.indent < (column : Int) then
    { l.emitAt place token with indent := column, indents := l.indent :: l.indents }
  else l

/-- Moves behind the mark of the byte order, which may stand at the start of a text. -/
def skipOrderMark (l : Lexer) : Lexer :=
  if l.cursor.index == 0 && l.cursor.peek == '\ufeff' then { l with cursor := l.cursor.step } else l

/-- Moves behind the blanks, comments and line breaks before a token, `fuel` lines at most.  On a
    new line a key may start, but not inside brackets. -/
def skipToToken : (fuel : Nat) → Lexer → Lexer
  | 0, l => l
  | fuel + 1, l =>
    let c := l.cursor.skipSpaces
    let c := if c.peek == '#' then c.skipLine else c
    if isBreak c.peek then
      skipToToken fuel { l with cursor := c.lineBreak.2, keyAllowed := l.keyAllowed || !l.inFlow }
    else { l with cursor := c }

/-! ### The tokens -/

/-- The end of the text closes everything. -/
def streamEnd (l : Lexer) : Except Fault Lexer := do
  pure ((← (l.closeBlocks (-1)).dropKey).emit .streamEnd)

/-- A directive. -/
def directive (l : Lexer) : Except Fault Lexer := do
  let l ← (l.closeBlocks (-1)).dropKey
  let (token, cursor) ← Lexeme.directive l.cursor
  pure { l.emit token with cursor, keyAllowed := false }

/-- The mark that opens or closes a document. -/
def documentMark (l : Lexer) (token : Token) : Except Fault Lexer := do
  let l ← (l.closeBlocks (-1)).dropKey
  pure { l.emit token with cursor := l.cursor.advance 3, keyAllowed := false }

/-- An opening bracket or brace may start a key. -/
def opening (l : Lexer) (token : Token) : Except Fault Lexer := do
  let l ← l.saveKey
  pure { l.emit token with
    cursor := l.cursor.step, flowLevel := l.flowLevel + 1, keyAllowed := true }

/-- A closing bracket or brace needs an open one. -/
def closing (l : Lexer) (token : Token) : Except Fault Lexer := do
  let l ← l.dropKey
  Lexeme.require l.inFlow
  pure { l.emit token with
    cursor := l.cursor.step, flowLevel := l.flowLevel - 1, keyAllowed := false }

/-- A comma. -/
def comma (l : Lexer) : Except Fault Lexer := do
  let l ← l.dropKey
  pure { l.emit .comma with cursor := l.cursor.step, keyAllowed := true }

/-- The mark of an item or key of a block, which opens the block when it is the first. -/
def blockMark (l : Lexer) (block mark : Token) (keyAllowed : Bool) : Except Fault Lexer := do
  Lexeme.require (l.inFlow || l.keyAllowed)
  let l := if l.inFlow then l else l.openBlock l.cursor.column l.tokens.size block
  let l ← l.dropKey
  pure { l.emit mark with cursor := l.cursor.step, keyAllowed }

/-- The mark of an item. -/
def dash (l : Lexer) : Except Fault Lexer := l.blockMark .sequenceOpen .dash true

/-- The mark of a key. -/
def key (l : Lexer) : Except Fault Lexer := l.blockMark .mappingOpen .key !l.inFlow

/-- The mark of a value.  What stands before it on the line becomes its key, and opens a block
    when it is the first. -/
def value (l : Lexer) : Except Fault Lexer :=
  match l.possibleKey? with
  | some found =>
    let l := l.forgetKey.emitAt found.place .key
    let l := if l.inFlow then l else l.openBlock found.column found.place .mappingOpen
    .ok { l.emit .value with cursor := l.cursor.step, keyAllowed := false }
  | none => l.blockMark .mappingOpen .value !l.inFlow

/-- An alias or a property of a node. -/
def property (l : Lexer) (read : Cursor → Except Fault (Token × Cursor)) :
    Except Fault Lexer := do
  let l ← l.saveKey
  let (token, cursor) ← read l.cursor
  pure { l.emit token with cursor, keyAllowed := false }

/-- A quoted scalar. -/
def quoted (l : Lexer) (double : Bool) : Except Fault Lexer := do
  let l ← l.saveKey
  let (text, cursor) ← Lexeme.quoted double l.cursor
  pure { l.emit (.scalar text false) with cursor, keyAllowed := false }

/-- A block scalar. -/
def block (l : Lexer) (folded : Bool) : Except Fault Lexer := do
  let l ← l.dropKey
  let (text, cursor) ← Lexeme.block folded l.indent l.cursor
  pure { l.emit (.scalar text false) with cursor, keyAllowed := true }

/-- A plain scalar. -/
def plain (l : Lexer) : Except Fault Lexer := do
  let l ← l.saveKey
  let (text, broken, cursor) := Lexeme.plain l.inFlow (l.indent + 1) l.cursor
  pure { l.emit (.scalar text true) with cursor, keyAllowed := broken }

/-- Whether a plain scalar can start with `x` before `next`. -/
def startsPlain (inFlow : Bool) (x next : Char) : Bool :=
  !(isGap x || "-?:,[]\x7b\x7d#&*!|>'\"%@\x60".contains x) ||
    (!isGap next && (x == '-' || (!inFlow && (x == '?' || x == ':'))))

/-- Reads the token at the cursor. -/
def token (l : Lexer) : Except Fault Lexer :=
  let c := l.cursor
  let x := c.peek
  let next := c.ahead 1
  -- Marks at the start of a line come first, then those that need a gap behind them, then scalars.
  if x == '%' && c.column == 0 then l.directive
  else if x == '-' && c.column == 0 && c.atMark '-' then l.documentMark .documentStart
  else if x == '.' && c.column == 0 && c.atMark '.' then l.documentMark .documentEnd
  else if x == '[' then l.opening .bracketOpen
  else if x == '\x7b' then l.opening .braceOpen
  else if x == ']' then l.closing .bracketClose
  else if x == '\x7d' then l.closing .braceClose
  else if x == ',' then l.comma
  else if x == '-' && isGap next then l.dash
  else if x == '?' && (l.inFlow || isGap next) then l.key
  else if x == ':' && (l.inFlow || isGap next) then l.value
  else if x == '*' then
    l.property fun c => (Lexeme.anchorName c).map fun found => (.alias found.1, found.2)
  else if x == '&' then
    l.property fun c => (Lexeme.anchorName c).map fun found => (.anchor found.1, found.2)
  else if x == '!' then
    l.property fun c => (Lexeme.tag c).map fun found => (.tag found.1.1 found.1.2, found.2)
  else if x == '|' && !l.inFlow then l.block false
  else if x == '>' && !l.inFlow then l.block true
  else if x == '\x27' then l.quoted false
  else if x == '\x22' then l.quoted true
  else if startsPlain l.inFlow x next then l.plain
  else .error .malformed

/-- Moves to the next token, which is at most `fuel` lines away, and reads it; at the end of the
    text there is no more. -/
def next (fuel : Nat) (l : Lexer) : Except Fault (Lexer × Bool) := do
  let l ← (skipToToken fuel l.skipOrderMark).dropStaleKeys
  let l := l.closeBlocks l.cursor.column
  if l.cursor.atEnd then pure (← l.streamEnd, true)
  else pure (← l.token, false)

/-- The tokens before the first place where the mark of a key may still have to be put in. -/
def settled (l : Lexer) : Array Token :=
  let places := (l.possibleKeys.filter fun entry => !l.isStale entry.2).map (·.2.place)
  l.tokens.extract 0 (places.foldl min l.tokens.size)

/-- Reads the tokens up to the end of the text, or to the place where there are no more.  Every
    token takes a character, so `fuel` stays ahead of the lines that are left. -/
def run : (fuel : Nat) → Lexer → Array Token
  | 0, l => l.settled.push (.broken .malformed)
  | fuel + 1, l =>
    match l.next (fuel + 1) with
    | .ok (l, ended) => if ended then l.tokens else run fuel l
    | .error fault => l.settled.push (.broken fault)

end Lexer

/-- The tokens of a text. -/
def Token.scan (text : String) : List Token :=
  let rest := text.toList
  if rest.all isAllowed then (Lexer.run (rest.length + 1) { cursor := { rest } }).toList
  else [.broken .malformed]

end PipelineCompiler.Yaml
