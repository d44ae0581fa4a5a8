import PipelineCompiler.Number.Numeral
import PipelineCompiler.Yaml.Cursor

namespace PipelineCompiler.Yaml.Lexeme

/-!
# Lexemes

The scanners of the tokens that carry text.  Each starts at the first character of its token and
returns what it read with the cursor behind it.

* `directive` — the line of a directive;
* `anchorName`, `tag` — the properties of a node;
* `plain`, `quoted`, `block` — the three ways to write a scalar.
-/

/-- What a scanner returns. -/
abbrev Scan (α : Type) := Except Fault (α × Cursor)

/-- Letters, digits, `-` and `_`. -/
def isNameChar (c : Char) : Bool := c.isAlphanum || c == '-' || c == '_'

/-- A hexadecimal digit. -/
def isHexDigit (c : Char) : Bool := (Number.baseDigit? c).any (· < 16)

/-- The number that digits of a base stand for. -/
def digitsValue (base : Nat) (cs : List Char) : Nat :=
  Number.ofDigits base (cs.filterMap Number.baseDigit?)

/-- Goes on when a condition holds. -/
def require (condition : Bool) : Except Fault Unit :=
  if condition then .ok () else .error .malformed

/-! ### Names and tags -/

/-- The name of an anchor or alias, after its mark. -/
def anchorName (c : Cursor) : Except Fault (String × Cursor) := do
  let (name, c) := c.step.takeWhile isNameChar
  require (!name.isEmpty)
  require (isGap c.peek || "?:,]\x7d%@\x60".contains c.peek)
  pure (String.ofList name, c)

/-- The characters of a tag. -/
def isUriChar (c : Char) : Bool := c.isAlphanum || "-;/?:@&=+$,_.!~*'()[]".contains c

/-- The bytes of a run of escapes `%XX`. -/
def uriBytes : List Char → Except Fault (List UInt8 × List Char)
  | '%' :: a :: b :: rest =>
    if isHexDigit a && isHexDigit b then do
      let (bytes, rest) ← uriBytes rest
      pure (UInt8.ofNat (digitsValue 16 [a, b]) :: bytes, rest)
    else .error .malformed
  | '%' :: _ => .error .malformed
  | rest => .ok ([], rest)

/-- The text of a tag or of its expansion; escaped bytes are read as UTF-8. -/
def uriFrom : (fuel : Nat) → List Char → Except Fault (List Char × List Char)
  | 0, rest => .ok ([], rest)
  | fuel + 1, '%' :: rest => do
    let (bytes, rest) ← uriBytes ('%' :: rest)
    match String.fromUTF8? ⟨bytes.toArray⟩ with
    | some text =>
      let (more, rest) ← uriFrom fuel rest
      pure (text.toList ++ more, rest)
    | none => .error .malformed
  | fuel + 1, c :: rest =>
    if isUriChar c then do
      let (more, rest) ← uriFrom fuel rest
      pure (c :: more, rest)
    else .ok ([], c :: rest)
  | _, [] => .ok ([], [])

/-- A tag or its expansion, which is not empty. -/
def uri (c : Cursor) : Except Fault (String × Cursor) := do
  let (text, rest) ← uriFrom c.rest.length c.rest
  let count := c.rest.length - rest.length
  require (count != 0)
  pure (String.ofList text, c.advance count)

/-- A handle: `!`, `!!` or `!name!`. -/
def tagHandle (c : Cursor) : Except Fault (String × Cursor) := do
  require (c.peek == '!')
  if c.ahead 1 == ' ' then pure ("!", c.step)
  else
    let (name, after) := c.step.takeWhile isNameChar
    require (after.peek == '!')
    pure (String.ofList ('!' :: name ++ ['!']), after.step)

/-- Whether the word here, which starts with `!`, has a second `!`. -/
def hasHandle (c : Cursor) : Bool :=
  ((c.rest.drop 1).takeWhile fun x => !isSpaceOrEnd x).contains '!'

/-- A tag: handle and suffix. -/
def tag (c : Cursor) : Except Fault ((Option String × String) × Cursor) := do
  let (found, c) ←
    if c.ahead 1 == '<' then do
      let (suffix, c) ← uri (c.advance 2)
      require (c.peek == '>')
      pure ((none, suffix), c.step)
    else if isGap (c.ahead 1) then pure ((none, "!"), c.step)
    else do
      let (handle, c) ← if hasHandle c then tagHandle c else pure ("!", c.step)
      let (suffix, c) ← uri c
      pure ((some handle, suffix), c)
  require (isSpaceOrEnd c.peek)
  pure (found, c)

/-! ### Directives -/

/-- A number of a version. -/
def versionNumber (c : Cursor) : Except Fault (Nat × Cursor) := do
  let (digits, c) := c.takeWhile Char.isDigit
  require (!digits.isEmpty)
  if Number.digitLimit < digits.length then
    throw (.invalidValue (Number.tooLongMessage digits.length))
  pure (digitsValue 10 digits, c)

/-- The version that a document is written in. -/
def versionDirective (c : Cursor) : Except Fault (Token × Cursor) := do
  let (major, c) ← versionNumber c.skipSpaces
  require (c.peek == '.')
  let (minor, c) ← versionNumber c.step
  require (isSpaceOrEnd c.peek)
  pure (.version major minor, c)

/-- A handle and what it stands for. -/
def handleDirective (c : Cursor) : Except Fault (Token × Cursor) := do
  let (handle, c) ← tagHandle c.skipSpaces
  require (c.peek == ' ')
  let (expansion, c) ← uri c.skipSpaces
  require (isSpaceOrEnd c.peek)
  pure (.handle handle expansion, c)

/-- Moves behind the blanks, the comment and the break that end a line. -/
def restOfLine (c : Cursor) : Except Fault Cursor := do
  let c := c.skipSpaces
  let c := if c.peek == '#' then c.skipLine else c
  require (isLineEnd c.peek)
  pure c.lineBreak.2

/-- The line of a directive. -/
def directive (c : Cursor) : Except Fault (Token × Cursor) := do
  let (name, c) := c.step.takeWhile isNameChar
  require (!name.isEmpty)
  require (isSpaceOrEnd c.peek)
  let (token, c) ←
    if name == "YAML".toList then versionDirective c
    else if name == "TAG".toList then handleDirective c
    else pure (.comment, c.skipLine)
  pure (token, ← restOfLine c)

/-! ### Plain scalars -/

/-- A plain scalar ends before a gap, before a `:` that ends a key, and inside brackets before
    the characters that structure them. -/
def plainRun (inFlow : Bool) : List Char → List Char
  | [] => []
  | c :: rest =>
    let next := rest.head?.getD '\x00'
    if isGap c then []
    else if c == ':' && (isGap next || (inFlow && ",[]\x7b\x7d".contains next)) then []
    else if inFlow && ",?[]\x7b\x7d".contains c then []
    else c :: plainRun inFlow rest

/-- Skips spaces and reads line breaks, up to other text or to a mark of a document.  The flag
    says that such a mark was met. -/
def breaksAndSpaces : (fuel : Nat) → Cursor → List Char × Bool × Cursor
  | 0, c => ([], false, c)
  | fuel + 1, c =>
    if c.peek == ' ' then breaksAndSpaces fuel c.step
    else if isBreak c.peek then
      let (found, c) := c.lineBreak
      if c.atDocumentMark then ([], true, c)
      else
        let (more, marked, c) := breaksAndSpaces fuel c
        (found ++ more, marked, c)
    else ([], false, c)

/-- What stands between two words of a plain scalar. -/
structure PlainGap where
  /-- The text that the gap folds to; nothing when the scalar ends here. -/
  text : List Char
  /-- Whether a line break was crossed. -/
  broken : Bool
  cursor : Cursor

/-- The gap after a word.  One line break folds to a space, and of several the first is
    dropped. -/
def plainGap (c : Cursor) : PlainGap :=
  let (spaces, c) := c.takeWhile (· == ' ')
  if isBreak c.peek then
    let (first, c) := c.lineBreak
    if c.atDocumentMark then ⟨[], true, c⟩
    else
      let (breaks, marked, c) := breaksAndSpaces (c.rest.length + 1) c
      if marked then ⟨[], true, c⟩
      else if first != ['\n'] then ⟨first ++ breaks, true, c⟩
      else if breaks.isEmpty then ⟨[' '], true, c⟩
      else ⟨breaks, true, c⟩
  else ⟨spaces, false, c⟩

/-- The words of a plain scalar; `gap` stands before the next word.  Returns the text, whether a
    line break stands behind it, and the cursor. -/
def plainWords (inFlow : Bool) (indent : Int) :
    (fuel : Nat) → (gap : PlainGap) → List Char × Bool × Cursor
  | 0, gap => ([], gap.broken, gap.cursor)
  | fuel + 1, gap =>
    let c := gap.cursor
    let word := if c.peek == '#' then [] else plainRun inFlow c.rest
    if word.isEmpty then ([], gap.broken, c)
    else
      let next := plainGap (c.advance word.length)
      if next.text.isEmpty || next.cursor.peek == '#' ||
          (!inFlow && next.cursor.column < indent) then
        (gap.text ++ word, next.broken, next.cursor)
      else
        let (more, broken, c) := plainWords inFlow indent fuel next
        (gap.text ++ word ++ more, broken, c)

/-- A plain scalar, which goes on over lines that are indented by `indent` at least. -/
def plain (inFlow : Bool) (indent : Int) (c : Cursor) : String × Bool × Cursor :=
  let (text, broken, c) := plainWords inFlow indent (c.rest.length + 1) ⟨[], false, c⟩
  (String.ofList text, broken, c)

/-! ### Quoted scalars -/

/-- The character that a one-letter escape stands for. -/
def shortEscape? (c : Char) : Option Char :=
  [ ('0', '\x00'), ('a', '\x07'), ('b', '\x08'), ('t', '\t'), ('\t', '\t'), ('n', '\n'),
    ('v', '\x0b'), ('f', '\x0c'), ('r', '\r'), ('e', '\x1b'), (' ', ' '), ('\x22', '\x22'),
    ('\\', '\\'), ('/', '/'), ('N', '\x85'), ('_', '\xa0'), ('L', '\u2028'),
    ('P', '\u2029') ].lookup c

/-- The count of hexadecimal digits after the letter of an escape. -/
def escapeWidth? (c : Char) : Option Nat := [('x', 2), ('u', 4), ('U', 8)].lookup c

/-- The character with a number.  Numbers of more than thirty-one bits are not even looked up. -/
def charOfCode (code : Nat) : Except Fault (List Char) :=
  if code < 0x110000 then .ok [Text.charOfCode code]
  else if code < 0x80000000 then .error (.invalidValue "chr() arg not in range(0x110000)")
  else .error .illTyped

/-- The line breaks between the lines of a quoted scalar; blanks around them are dropped, and no
    mark of a document may stand there. -/
def quotedBreaks : (fuel : Nat) → Cursor → Except Fault (List Char × Cursor)
  | 0, _ => .error .malformed
  | fuel + 1, c => do
    require (!c.atDocumentMark)
    let c := c.skipWhile fun x => x == ' ' || x == '\t'
    if isBreak c.peek then
      let (found, c) := c.lineBreak
      let (more, c) ← quotedBreaks fuel c
      pure (found ++ more, c)
    else pure ([], c)

/-- An escape, after its backslash. -/
def escape (c : Cursor) : Except Fault (List Char × Cursor) := do
  match shortEscape? c.peek, escapeWidth? c.peek with
  | some found, _ => pure ([found], c.step)
  | none, some width =>
    let digits := c.step.rest.take width
    require (digits.length == width && digits.all isHexDigit)
    pure (← charOfCode (digitsValue 16 digits), c.advance (width + 1))
  | none, none =>
    require (isBreak c.peek)
    quotedBreaks (c.rest.length + 1) c.lineBreak.2

/-- The blanks and line breaks inside a quoted scalar. -/
def quotedGap (c : Cursor) : Except Fault (List Char × Cursor) := do
  let (blanks, c) := c.takeWhile fun x => x == ' ' || x == '\t'
  require (!c.atEnd)
  if isBreak c.peek then
    let (first, c) := c.lineBreak
    let (breaks, c) ← quotedBreaks (c.rest.length + 1) c
    if first != ['\n'] then pure (first ++ breaks, c)
    else if breaks.isEmpty then pure ([' '], c)
    else pure (breaks, c)
  else pure (blanks, c)

/-- The text of a quoted scalar up to its closing quote. -/
def quotedFrom (double : Bool) : (fuel : Nat) → Cursor → Except Fault (List Char × Cursor)
  | 0, _ => .error .malformed
  | fuel + 1, c => do
    let x := c.peek
    let quote := if double then '\x22' else '\x27'
    if x == quote && !(!double && c.ahead 1 == '\x27') then pure ([], c.step)
    else
      let (found, c) ←
        if x == quote then pure (['\x27'], c.advance 2)
        else if double && x == '\\' then escape c.step
        else if isGap x then quotedGap c
        else pure ([x], c.step)
      let (more, c) ← quotedFrom double fuel c
      pure (found ++ more, c)

/-- A scalar between single or double quotes. -/
def quoted (double : Bool) (c : Cursor) : Except Fault (String × Cursor) := do
  let (text, c) ← quotedFrom double (c.rest.length + 1) c.step
  pure (String.ofList text, c)

/-! ### Block scalars -/

/-- What becomes of the line breaks at the end of a block scalar. -/
inductive Chomp where
  | strip
  | clip
  | keep
deriving Repr, DecidableEq

/-- The mark that keeps or strips the breaks at the end. -/
def chompMark? : Char → Option Chomp
  | '+' => some .keep
  | '-' => some .strip
  | _ => none

/-- The digit that announces the indentation. -/
def indentMark? (c : Char) : Option Nat := if c.isDigit then Number.baseDigit? c else none

/-- The marks behind the `|` or `>`, in either order. -/
def blockMarks (c : Cursor) : Except Fault ((Chomp × Option Nat) × Cursor) := do
  let (chomp, indent, c) :=
    match chompMark? c.peek, indentMark? c.peek with
    | some chomp, _ =>
      match indentMark? (c.ahead 1) with
      | some indent => (chomp, some indent, c.advance 2)
      | none => (chomp, none, c.step)
    | none, some indent =>
      match chompMark? (c.ahead 1) with
      | some chomp => (chomp, some indent, c.advance 2)
      | none => (.clip, some indent, c.step)
    | none, none => (.clip, none, c)
  require (indent != some 0)
  require (isSpaceOrEnd c.peek)
  pure ((chomp, indent), c)

/-- The breaks of the empty lines before a block scalar, and the deepest column that its blanks
    reach. -/
def blockIndentation : (fuel deepest : Nat) → Cursor → List Char × Nat × Cursor
  | 0, deepest, c => ([], deepest, c)
  | fuel + 1, deepest, c =>
    if c.peek == ' ' then
      let c := c.step
      blockIndentation fuel (max deepest c.column) c
    else if isBreak c.peek then
      let (found, c) := c.lineBreak
      let (more, deepest, c) := blockIndentation fuel deepest c
      (found ++ more, deepest, c)
    else ([], deepest, c)

/-- The breaks of empty lines; spaces up to the indentation are dropped. -/
def blockBreaks (indent : Nat) : (fuel : Nat) → Cursor → List Char × Cursor
  | 0, c => ([], c)
  | fuel + 1, c =>
    let c := c.skipSpacesTo indent
    if isBreak c.peek then
      let (found, c) := c.lineBreak
      let (more, c) := blockBreaks indent fuel c
      (found ++ more, c)
    else ([], c)

/-- The lines of a block scalar; `breaks` are those of the empty lines before.  Folding turns a
    single line feed between two lines that start with no blank into a space.  Returns the text
    with the last line, the break behind it, the breaks after that, and the cursor. -/
def blockLines (folded : Bool) (indent : Nat) :
    (fuel : Nat) → (breaks : List Char) → Cursor →
      List Char × List Char × List Char × Cursor
  | 0, breaks, c => ([], [], breaks, c)
  | fuel + 1, breaks, c =>
    if c.column == indent && !c.atEnd then
      let startsWithText := !(c.peek == ' ' || c.peek == '\t')
      let (line, c) := c.takeWhile (!isLineEnd ·)
      let (found, c) := c.lineBreak
      let (after, c) := blockBreaks indent (c.rest.length + 1) c
      if c.column == indent && !c.atEnd then
        -- A single break between lines of text is a space, and one before other breaks is dropped.
        let between :=
          if folded && found == ['\n'] && startsWithText && !(c.peek == ' ' || c.peek == '\t')
          then (if after.isEmpty then [' '] else [])
          else found
        let (more, last, tail, c) := blockLines folded indent fuel after c
        (breaks ++ line ++ between ++ more, last, tail, c)
      else (breaks ++ line, found, after, c)
    else ([], [], breaks, c)

/-- A literal or folded scalar; `parent` is the indentation of the block around it. -/
def block (folded : Bool) (parent : Int) (c : Cursor) : Except Fault (String × Cursor) := do
  let ((chomp, increment), c) ← blockMarks c.step
  let c ← restOfLine c
  let least := (max (parent + 1) 1).toNat
  -- Without an increment, the first line with a text sets the indentation.
  let (indent, breaks, c) :=
    match increment with
    | none =>
      let (breaks, deepest, c) := blockIndentation (c.rest.length + 1) 0 c
      (max least deepest, breaks, c)
    | some increment =>
      let indent := least + increment - 1
      let (breaks, c) := blockBreaks indent (c.rest.length + 1) c
      (indent, breaks, c)
  let (text, last, tail, c) := blockLines folded indent (c.rest.length + 1) breaks c
  let ending :=
    match chomp with
    | .strip => []
    | .clip => last
    | .keep => last ++ tail
  pure (String.ofList (text ++ ending), c)

end PipelineCompiler.Yaml.Lexeme
