import PipelineCompiler.Value.Quoted
import PipelineCompiler.Yaml.Outline
import PipelineCompiler.Yaml.Tag

namespace PipelineCompiler.Yaml

/-!
# Writing YAML

Mappings and sequences are written as blocks, one entry or item a line, and scalars without
quotes wherever they would be read back as themselves.

* `Scalar.allowsPlain`, `Scalar.allowsSingle` — which texts can do without quotes or escapes;
* `Scalar.write` — a text in the plainest style that shows it;
* `Outline.blockText` — the lines of a node at an indentation;
* `write`, `isTooDeep` — the text of a document, and whether it is too deep to have one.
-/

/-- The characters that break a line in a scalar that is written. -/
def isWrittenBreak (c : Char) : Bool :=
  c == '\n' || c == '\x85' || c == '\u2028' || c == '\u2029'

namespace Scalar

/-- The characters that can be written as they are. -/
def isShown (c : Char) : Bool :=
  let n := Text.codeOf c
  n == 0x0A || (0x20 ≤ n && n ≤ 0x7E) || n == 0x85 ||
    (((0xA0 ≤ n && n ≤ 0xD7FF) || (0xE000 ≤ n && n ≤ 0xFFFD) ||
      (0x10000 ≤ n && n < 0x10FFFF)) &&
      n != 0xFEFF)

/-- Whether two neighbouring characters satisfy a condition somewhere. -/
def hasNeighbours (p : Char → Char → Bool) (cs : List Char) : Bool :=
  (cs.zip cs.tail).any fun pair => p pair.1 pair.2

/-- Whether a text spans lines. -/
def isMultiline (cs : List Char) : Bool := cs.any isWrittenBreak

/-- Whether a text starts with a character that starts something else in a block. -/
def startsWithIndicator : List Char → Bool
  | [] => false
  | c :: rest =>
    "#,[]\x7b\x7d&*!|>'\"%@\x60".contains c ||
      ("?:-".contains c && isGap (rest.head?.getD '\x00'))

/-- Whether a text would be taken for something else in a block: by its start, by a `:` before a
    gap, or by a `#` behind one. -/
def hasIndicator (cs : List Char) : Bool :=
  ['-', '-', '-'].isPrefixOf cs || ['.', '.', '.'].isPrefixOf cs || startsWithIndicator cs ||
    hasNeighbours (fun c next => c == ':' && isGap next) cs || cs.getLast? == some ':' ||
    hasNeighbours (fun c next => isGap c && next == '#') cs

/-- Whether a text can stand between single quotes: every character is shown, and no space
    stands beside a line break. -/
def allowsSingle (cs : List Char) : Bool :=
  cs.all isShown &&
    !hasNeighbours (fun c next => (c == ' ' && isWrittenBreak next) ||
      (isWrittenBreak c && next == ' ')) cs

/-- Whether a text can stand without quotes. -/
def allowsPlain (cs : List Char) : Bool :=
  allowsSingle cs && !isMultiline cs && !hasIndicator cs &&
    cs.head? != some ' ' && cs.getLast? != some ' '

/-- The characters of a text between single quotes.  A line feed is written twice where a run of
    breaks starts with it, and the text goes on at the indentation. -/
def singleChars (indent : Nat) (inBreaks : Bool) : List Char → List Char
  | [] => if inBreaks then List.replicate indent ' ' else []
  | c :: rest =>
    if isWrittenBreak c then
      (if c == '\n' && !inBreaks then ['\n'] else []) ++ c :: singleChars indent true rest
    else
      (if inBreaks then List.replicate indent ' ' else []) ++
        (if c == '\x27' then ['\x27', '\x27'] else [c]) ++ singleChars indent false rest

/-- The letter of an escape, for the characters that have one. -/
def shortEscape? (c : Char) : Option Char :=
  [ ('\x00', '0'), ('\x07', 'a'), ('\x08', 'b'), ('\t', 't'), ('\n', 'n'), ('\x0b', 'v'),
    ('\x0c', 'f'), ('\r', 'r'), ('\x1b', 'e'), ('\x22', '\x22'), ('\\', '\\'), ('\x85', 'N'),
    ('\u2028', 'L'), ('\u2029', 'P') ].lookup c

/-- The characters that need no escape between double quotes. -/
def isBare (c : Char) : Bool :=
  let n := c.toNat
  ((0x20 ≤ n && n ≤ 0x7E) || (0xA0 ≤ n && n ≤ 0xD7FF) || (0xE000 ≤ n && n ≤ 0xFFFD)) &&
    !(['\x22', '\\', '\u2028', '\u2029', '\ufeff'].contains c)

/-- A character between double quotes. -/
def doubleChar (c : Char) : String :=
  let n := Text.codeOf c
  if isBare c then c.toString
  else
    match shortEscape? c with
    | some letter => "\\".push letter
    | none =>
      if n ≤ 0xFF then "\\x" ++ (hex 2 n).map Char.toUpper
      else if n ≤ 0xFFFF then "\\u" ++ (hex 4 n).map Char.toUpper
      else "\\U" ++ (hex 8 n).map Char.toUpper

/-- A text in the plainest style that shows it. -/
def write (indent : Nat) (s : String) : String :=
  let cs := s.toList
  if Tag.ofPlain s == .str && allowsPlain cs then s
  else if allowsSingle cs then
    "'" ++ String.ofList (singleChars indent false cs) ++ "'"
  else "\"" ++ String.join (cs.map doubleChar) ++ "\""

end Scalar

/-- Spellings of the floats in YAML. -/
def layout : Number.Layout := ⟨".nan", ".inf", "-.inf", true⟩

/-- The characters of base 64. -/
def base64Digits : List Char :=
  "ABCDEFGHIJKLMNOPQRSTUVWXYZabcdefghijklmnopqrstuvwxyz0123456789+/".toList

/-- A digit of base 64. -/
def base64Digit (n : Nat) : Char := base64Digits.getD n '='

/-- Bytes in base 64, with `=` in place of the digits that are missing at the end. -/
def base64 : List UInt8 → List Char
  | a :: b :: c :: rest =>
    let n := a.toNat * 65536 + b.toNat * 256 + c.toNat
    base64Digit (n / 262144) :: base64Digit (n / 4096 % 64) :: base64Digit (n / 64 % 64) ::
      base64Digit (n % 64) :: base64 rest
  | [a, b] =>
    let n := a.toNat * 1024 + b.toNat * 4
    [base64Digit (n / 4096), base64Digit (n / 64 % 64), base64Digit (n % 64), '=']
  | [a] => [base64Digit (a.toNat / 4), base64Digit (a.toNat % 4 * 16), '=', '=']
  | [] => []

/-- Lines of seventy-six characters. -/
def wrapped : (fuel : Nat) → List Char → List String
  | 0, _ | _, [] => []
  | fuel + 1, cs => String.ofList (cs.take 76) :: wrapped fuel (cs.drop 76)

/-- Spaces. -/
def spaces (n : Nat) : String := "".pushn ' ' n

/-- Bytes under their tag, as the lines of a literal scalar. -/
def bytesText (indent : Nat) (bytes : List UInt8) : String :=
  if bytes.isEmpty then "!!binary \"\""
  else
    let cs := base64 bytes
    "!!binary |" ++ String.join ((wrapped cs.length cs).map fun line =>
      "\n" ++ spaces indent ++ line)

/-- The text of a scalar whose further lines stand at an indentation. -/
def scalarText (indent : Nat) : Value → String
  | .null => "null"
  | .bool b => if b then "true" else "false"
  | .int i => toString i
  | .float x => Number.render layout x
  | .str s => Scalar.write indent s
  | .bytes b => bytesText indent b
  | .date d => d.text
  | .timestamp t => t.text " "
  | _ => "null"

/-- The length of the short tag of a scalar. -/
def tagLength : Value → Nat
  | .null | .bool _ => 6
  | .int _ | .str _ => 5
  | .float _ => 7
  | .timestamp _ | .date _ => 11
  | _ => 8

/-- Whether a scalar can stand before a `:` on its line: it is not empty, spans no lines, and is
    shorter than 128 characters together with its tag and its anchor. -/
def isSimpleScalar (anchor : Option String) (v : Value) : Bool :=
  let reach := 128 - (anchor.getD "").length
  match v with
  | .str s => !s.isEmpty && !Scalar.isMultiline s.toList && tagLength (.str s) + s.length < reach
  | .bytes _ => false
  | v => tagLength v + (scalarText 0 v).length < reach

namespace Outline

/-- Whether a key can stand before a `:` on its line. -/
def isSimpleKey : Outline → Bool
  | .alias _ => true
  | .scalar anchor v => isSimpleScalar anchor v
  | .sequence _ items => items.isEmpty
  | .mapping _ _ entries => entries.isEmpty

/-- The anchor and tag before a node. -/
def properties : Outline → List String
  | .alias _ => []
  | .scalar anchor _ | .sequence anchor _ | .mapping anchor false _ =>
    (anchor.map ("&" ++ ·)).toList
  | .mapping anchor true _ => (anchor.map ("&" ++ ·)).toList ++ ["!!set"]

/-- Whether a node is written as a block: a sequence or mapping that is not empty. -/
def isBlock : Outline → Bool
  | .sequence _ items => !items.isEmpty
  | .mapping _ _ entries => !entries.isEmpty
  | _ => false

/-- The line break and indentation between the lines of a block. -/
def newline (indent : Nat) : String := "\n" ++ spaces indent

/-- A node behind a dash or another mark, given its lines.  A block without properties starts on
    the same line. -/
def behindMark (indent : Nat) (node : Outline) (body : String) : String :=
  if node.properties.isEmpty then body
  else
    " ".intercalate node.properties ++ (if node.isBlock then newline indent else " ") ++ body

/-- The indentation of the lines of a value when its key has the indentation `indent`.  The dashes
    of a sequence are not indented deeper than the key. -/
def valueIndent (indent : Nat) : Outline → Nat
  | .sequence _ _ => indent
  | _ => indent + 2

/-- The indentation of the lines of a value when its key has lines of its own.  The dashes of a
    sequence are not indented if an anchor stands on the line before them. -/
def loneValueIndent (indent : Nat) : Outline → Nat
  | .sequence (some _) _ => indent
  | _ => indent + 2

/-- A node behind a key and its `:`, given its lines.  A block starts on the next line. -/
def behindKey (indent : Nat) (node : Outline) (body : String) : String :=
  String.join (node.properties.map (" " ++ ·)) ++
    (if node.isBlock then newline (node.valueIndent indent) else " ") ++ body

mutual

/-- The lines of a node without its properties, the first without its indentation. -/
def bodyText (indent : Nat) : Outline → String
  | .alias name => "*" ++ name
  | .scalar _ v => scalarText indent v
  | .sequence _ items =>
    if items.isEmpty then "[]" else (newline indent).intercalate (itemTexts indent items)
  | .mapping _ _ entries =>
    if entries.isEmpty then "\x7b\x7d"
    else (newline indent).intercalate (entryTexts indent entries)

/-- The items of a sequence. -/
def itemTexts (indent : Nat) : List Outline → List String
  | [] => []
  | item :: rest =>
    ("- " ++ behindMark (indent + 2) item (bodyText (indent + 2) item)) :: itemTexts indent rest

/-- The entries of a mapping.  A key that is not simple has a line of its own. -/
def entryTexts (indent : Nat) : List (Outline × Outline) → List String
  | [] => []
  | (key, value) :: rest =>
    let keyText := behindMark (indent + 2) key (bodyText (indent + 2) key)
    let text :=
      if key.isSimpleKey then
        keyText ++ ":" ++ behindKey indent value (bodyText (value.valueIndent indent) value)
      else
        let valueIndent := value.loneValueIndent indent
        "? " ++ keyText ++ newline indent ++ ": " ++
          behindMark valueIndent value (bodyText valueIndent value)
    text :: entryTexts indent rest

end

/-- The lines of a node with its properties. -/
def blockText (indent : Nat) (node : Outline) : String :=
  behindMark indent node (bodyText indent node)

end Outline

/-- Whether the text of a document would run on: it is a scalar without quotes. -/
def isOpenEnded (v : Value) : Bool :=
  match v.bare with
  | .str s => Tag.ofPlain s == .str && Scalar.allowsPlain s.toList
  | .null | .bool _ | .int _ | .float _ | .date _ | .timestamp _ => true
  | _ => false

/-- The text of a document.  A document that is a scalar without quotes gets a mark at its
    end. -/
def write (v : Value) : String :=
  let outline := Outline.ofValue v
  let text := if outline.isBlock then outline.blockText 0 else outline.blockText 2
  text ++ "\n" ++ (if isOpenEnded v then "...\n" else "")

/-- Whether the parts of a value lie too deep inside one another to be written. -/
def isTooDeep (v : Value) : Bool := Outline.depthLimit < (Outline.ofValue v).depth

end PipelineCompiler.Yaml
