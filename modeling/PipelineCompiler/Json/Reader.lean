import PipelineCompiler.Number.Numeral
import PipelineCompiler.Text.Half
import PipelineCompiler.Value.Basic

namespace PipelineCompiler.Json

/-!
# Reading JSON

The grammar of JSON with three more numbers, `NaN`, `Infinity` and `-Infinity`.  Of two entries
with one key the later gives the value and the earlier the place.

* `Fault` — why a text is not read;
* `string`, `number` — the scanners of the leaves, which return what follows the leaf;
* `read` — the value of a text.
-/

/-- Why a text is not read. -/
inductive Fault where
  | malformed
  /-- A whole number has more digits than are read. -/
  | numberTooLong (digits : Nat)
  /-- Values lie too deep inside one another. -/
  | tooDeep
deriving Repr, DecidableEq

/-- What a scanner returns: a result and the characters that follow. -/
abbrev Scan (α : Type) := Except Fault (α × List Char)

/-- The four blanks of JSON. -/
def isSpace (c : Char) : Bool := c == ' ' || c == '\t' || c == '\n' || c == '\r'

/-- Skips blanks. -/
def skip (cs : List Char) : List Char := cs.dropWhile isSpace

/-! ### Strings -/

/-- The number of four hexadecimal digits. -/
def fourHex? : List Char → Option (Nat × List Char)
  | a :: b :: c :: d :: rest => do
    let digits ← [a, b, c, d].mapM fun x => (Number.baseDigit? x).filter (· < 16)
    pure (Number.ofDigits 16 digits, rest)
  | _ => none

/-- The second half of a surrogate pair, as an escape. -/
def lowSurrogate? : List Char → Option (Nat × List Char)
  | '\\' :: 'u' :: rest =>
    (fourHex? rest).filter fun found => 0xDC00 ≤ found.1 && found.1 ≤ 0xDFFF
  | _ => none

/-- The character of an escape `\uXXXX`; the two halves of a surrogate pair stand in two
    escapes. -/
def unicodeEscape? (cs : List Char) : Option (Char × List Char) := do
  let (code, rest) ← fourHex? cs
  match (lowSurrogate? rest).filter fun _ => 0xD800 ≤ code && code ≤ 0xDBFF with
  | some (low, rest) =>
    pure (Char.ofNat (0x10000 + (code - 0xD800) * 0x400 + (low - 0xDC00)), rest)
  | none => pure (Text.charOfCode code, rest)

/-- The character that a one-letter escape stands for. -/
def shortEscape? : Char → Option Char
  | '\x22' => some '\x22'
  | '\\' => some '\\'
  | '/' => some '/'
  | 'b' => some '\x08'
  | 'f' => some '\x0c'
  | 'n' => some '\n'
  | 'r' => some '\r'
  | 't' => some '\t'
  | _ => none

/-- The rest of a string whose first `done` characters are read, in reverse. -/
def stringFrom (done : List Char) : (fuel : Nat) → List Char → Scan String
  | 0, _ | _, [] => .error .malformed
  | fuel + 1, c :: rest =>
    if c == '\x22' then .ok (String.ofList done.reverse, rest)
    else if c.toNat < 0x20 then .error .malformed
    else if c == '\\' then
      match rest with
      | 'u' :: after =>
        match unicodeEscape? after with
        | some (found, after) => stringFrom (found :: done) fuel after
        | none => .error .malformed
      | letter :: after =>
        match shortEscape? letter with
        | some found => stringFrom (found :: done) fuel after
        | none => .error .malformed
      | [] => .error .malformed
    else stringFrom (c :: done) fuel rest

/-- The string after its opening quote. -/
def string (cs : List Char) : Scan String := stringFrom [] (cs.length + 1) cs

/-! ### Numbers -/

/-- The digits before the point: a zero alone, or digits that start with no zero. -/
def wholeDigits? : List Char → Option (List Char × List Char)
  | '0' :: rest => some (['0'], rest)
  | c :: rest =>
    if c.isDigit then some (c :: rest.takeWhile Char.isDigit, rest.dropWhile Char.isDigit)
    else none
  | [] => none

/-- A point and at least one digit; otherwise nothing is taken. -/
def fractionDigits : List Char → List Char × List Char
  | '.' :: c :: rest =>
    if c.isDigit then (c :: rest.takeWhile Char.isDigit, rest.dropWhile Char.isDigit)
    else ([], '.' :: c :: rest)
  | cs => ([], cs)

/-- An exponent with at least one digit; otherwise nothing is taken. -/
def exponentPart (cs : List Char) : Option Int × List Char :=
  match cs with
  | mark :: rest =>
    if mark == 'e' || mark == 'E' then
      let (negative, body) := Number.sign rest
      let digits := body.takeWhile Char.isDigit
      if digits.isEmpty then (none, cs)
      else
        let size : Int := Number.ofDigits 10 (digits.filterMap Number.baseDigit?)
        (some (if negative then -size else size), body.dropWhile Char.isDigit)
    else (none, cs)
  | [] => (none, cs)

/-- A number: an integer, unless it has a fraction or an exponent. -/
def number (cs : List Char) : Scan Value :=
  let (negative, body) := match cs with
    | '-' :: rest => (true, rest)
    | _ => (false, cs)
  match wholeDigits? body with
  | none => .error .malformed
  | some (whole, rest) =>
    let (fraction, rest) := fractionDigits rest
    let (power, rest) := exponentPart rest
    let digits := Number.ofDigits 10 ((whole ++ fraction).filterMap Number.baseDigit?)
    if fraction.isEmpty && power.isNone then
      if Number.digitLimit < whole.length then .error (.numberTooLong whole.length)
      else
        let magnitude : Int := digits
        .ok (.int (if negative then -magnitude else magnitude), rest)
    else .ok (.float (Number.scale negative digits (power.getD 0 - fraction.length)), rest)

/-! ### Values -/

/-- How many lists and mappings may lie inside one another. -/
def depthLimit : Nat := 985

/-- The words of JSON and their values. -/
def words : List (List Char × Value) :=
  [ ("null".toList, .null), ("true".toList, .bool true), ("false".toList, .bool false),
    ("NaN".toList, .float (0 / 0)), ("Infinity".toList, .float (1 / 0)),
    ("-Infinity".toList, .float (-(1 / 0))) ]

/-- A word or a number. -/
def leaf (cs : List Char) : Scan Value :=
  match words.find? fun word => word.1.isPrefixOf cs with
  | some (word, value) => .ok (value, cs.drop word.length)
  | none => number cs

mutual

/-- A value inside `depth` others; `fuel` bounds the number of steps. -/
def value (depth : Nat) : (fuel : Nat) → List Char → Scan Value
  | 0, _ | _, [] => .error .malformed
  | fuel + 1, c :: rest =>
    if c == '\x22' then (string rest).map fun found => (.str found.1, found.2)
    else if c == '[' then
      if depthLimit ≤ depth then .error .tooDeep
      else
        match skip rest with
        | ']' :: after => .ok (.list [], after)
        | after => items (depth + 1) [] fuel after
    else if c == '\x7b' then
      if depthLimit ≤ depth then .error .tooDeep
      else
        match skip rest with
        | '\x7d' :: after => .ok (.map [], after)
        | after => entries (depth + 1) [] fuel after
    else leaf (c :: rest)

/-- The items of a list after the first `done`, in reverse, up to the closing bracket. -/
def items (depth : Nat) (done : List Value) :
    (fuel : Nat) → List Char → Except Fault (Value × List Char)
  | 0, _ => .error .malformed
  | fuel + 1, cs => do
    let (item, rest) ← value depth fuel cs
    match skip rest with
    | ',' :: after => items depth (item :: done) fuel (skip after)
    | ']' :: after => .ok (.list (item :: done).reverse, after)
    | _ => .error .malformed

/-- The entries of a mapping after those `done`, up to the closing brace. -/
def entries (depth : Nat) (done : Value.Entries) :
    (fuel : Nat) → List Char → Except Fault (Value × List Char)
  | 0, _ => .error .malformed
  | fuel + 1, cs => do
    let '\x22' :: cs := cs | .error .malformed
    let (key, rest) ← string cs
    let ':' :: rest := skip rest | .error .malformed
    let (found, rest) ← value depth fuel (skip rest)
    let done := Value.put done (.str key) found
    match skip rest with
    | ',' :: after => entries depth done fuel (skip after)
    | '\x7d' :: after => .ok (.map done, after)
    | _ => .error .malformed

end

/-- Reads a text that holds one value and blanks around it. -/
def read (text : String) : Except Fault Value := do
  let cs := text.toList
  let (found, rest) ← value 0 (cs.length + 1) (skip cs)
  if (skip rest).isEmpty then .ok found else .error .malformed

end PipelineCompiler.Json
