import PipelineCompiler.Text.Half

namespace PipelineCompiler.Yaml

/-!
# Positions in a YAML text

* `isBreak`, `isSpaceOrEnd`, `isLineEnd` — the character classes that end words and lines; the
  end of the text counts as the character `NUL`, which no readable text contains;
* `Cursor` — what is left of a text, with line and column, on which indentation is measured;
* `Cursor.takeWhile`, `Cursor.lineBreak` — the two ways to move on;
* `Token` — what a text is cut into before its nodes are found: indentation turns into tokens that
  open and close blocks.  A text that cannot be cut any further still has the tokens before that
  place, so that whoever reads them may find another fault first.
-/

/-- Why a YAML text has no value. -/
inductive Fault where
  | malformed
  /-- A scalar is no number or moment of its type, or an escape no character, with the reason. -/
  | invalidValue (reason : String)
  /-- A scalar cannot have its type, or nodes lie too deep inside one another. -/
  | illTyped
deriving Repr, DecidableEq

/-- The characters that end a line. -/
def isBreak (c : Char) : Bool :=
  c == '\r' || c == '\n' || c == '\x85' || c == '\u2028' || c == '\u2029'

/-- The end of a line or of the text. -/
def isLineEnd (c : Char) : Bool := c == '\x00' || isBreak c

/-- A space, or the end of a line or of the text. -/
def isSpaceOrEnd (c : Char) : Bool := c == ' ' || isLineEnd c

/-- A space or tab, or the end of a line or of the text. -/
def isGap (c : Char) : Bool := c == '\t' || isSpaceOrEnd c

/-- The characters of which a YAML text may consist. -/
def isAllowed (c : Char) : Bool :=
  let n := Text.codeOf c
  n == 0x09 || n == 0x0A || n == 0x0D || (0x20 ≤ n && n ≤ 0x7E) || n == 0x85 ||
    (0xA0 ≤ n && n ≤ 0xD7FF) || (0xE000 ≤ n && n ≤ 0xFFFD) || 0x10000 ≤ n

/-- What is left of a text, and where it starts. -/
structure Cursor where
  rest : List Char
  /-- The number of characters before. -/
  index : Nat := 0
  line : Nat := 0
  column : Nat := 0
deriving Repr

namespace Cursor

/-- The character `n` places ahead. -/
def ahead (c : Cursor) (n : Nat) : Char := c.rest.getD n '\x00'

/-- The next character. -/
def peek (c : Cursor) : Char := c.ahead 0

/-- Whether nothing is left. -/
def atEnd (c : Cursor) : Bool := c.rest.isEmpty

/-- Moves on by one character.  A carriage return before a line feed does not end a line, and a
    byte order mark takes no column. -/
def step (c : Cursor) : Cursor :=
  match c.rest with
  | [] => c
  | x :: rest =>
    let next := { c with rest, index := c.index + 1 }
    if isBreak x && !(x == '\r' && rest.head? == some '\n') then
      { next with line := c.line + 1, column := 0 }
    else if x == '\ufeff' then next
    else { next with column := c.column + 1 }

/-- Moves on by `n` characters. -/
def advance (c : Cursor) : (n : Nat) → Cursor
  | 0 => c
  | n + 1 => c.step.advance n

/-- Takes the characters of a class, and moves behind them. -/
def takeWhile (c : Cursor) (p : Char → Bool) : List Char × Cursor :=
  let taken := c.rest.takeWhile p
  (taken, c.advance taken.length)

/-- Moves behind the characters of a class. -/
def skipWhile (c : Cursor) (p : Char → Bool) : Cursor := (c.takeWhile p).2

/-- Moves behind spaces. -/
def skipSpaces (c : Cursor) : Cursor := c.skipWhile (· == ' ')

/-- Moves behind spaces, but not beyond a column. -/
def skipSpacesTo (c : Cursor) (column : Nat) : Cursor :=
  c.advance ((c.rest.takeWhile (· == ' ')).take (column - c.column)).length

/-- Moves to the end of the line. -/
def skipLine (c : Cursor) : Cursor := c.skipWhile (!isLineEnd ·)

/-- Reads one line break, if there is one.  All breaks read as a line feed but the separators of
    lines and paragraphs. -/
def lineBreak (c : Cursor) : List Char × Cursor :=
  let x := c.peek
  if x == '\r' && c.ahead 1 == '\n' then (['\n'], c.advance 2)
  else if x == '\r' || x == '\n' || x == '\x85' then (['\n'], c.step)
  else if x == '\u2028' || x == '\u2029' then ([x], c.step)
  else ([], c)

/-- Whether a line starts here with three given characters that stand alone: the mark that
    opens or closes a document. -/
def atMark (c : Cursor) (mark : Char) : Bool :=
  c.rest.take 3 == [mark, mark, mark] && isGap (c.ahead 3)

/-- Whether the mark of the start or end of a document stands here. -/
def atDocumentMark (c : Cursor) : Bool := c.atMark '-' || c.atMark '.'

end Cursor

/-! ### Tokens -/

/-- A token. -/
inductive Token where
  | version (major minor : Nat)
  | handle (handle expansion : String)
  /-- A directive that asks for nothing. -/
  | comment
  | documentStart
  | documentEnd
  | streamEnd
  | sequenceOpen
  | mappingOpen
  | blockClose
  | bracketOpen
  | bracketClose
  | braceOpen
  | braceClose
  | dash
  | comma
  | key
  | value
  | alias (name : String)
  | anchor (name : String)
  | tag (handle : Option String) (suffix : String)
  | scalar (text : String) (plain : Bool)
  /-- The place from which on there are no tokens, for a reason. -/
  | broken (fault : Fault)
deriving Repr, DecidableEq

end PipelineCompiler.Yaml
