import PipelineCompiler.Number.Digits
import PipelineCompiler.Text.Blank

namespace PipelineCompiler.Number

open Text

/-!
# Reading numerals

Whole numbers and decimals as people type them: blanks around the numeral, a sign, digits of
any script, and single underscores between digits.

* `integer?` — a whole number in base 2, 8, 10 or 16, whose base may be announced by `0b`, `0o`
  or `0x`;
* `decimal?` — a decimal with an optional exponent, an infinity or a NaN;
* `leadingDigits` — the count of digits by which a numeral may be too long;
* `scale` — `± digits · 10 ^ power`, correctly rounded.
-/

/-- A blank that may stand around a numeral.  The information separators of ASCII may not. -/
def isOuterBlank (c : Char) : Bool := isBlank c && !(0x1C ≤ c.toNat && c.toNat ≤ 0x1F)

/-- A digit of any script as the ASCII digit; every other character stays. -/
def asciiDigit (c : Char) : Char :=
  match digitValue? c with
  | some value => Nat.digitChar value
  | none => c

/-- The value of an ASCII digit or letter as a digit of a base up to 36. -/
def baseDigit? (c : Char) : Option Nat :=
  if '0' ≤ c ∧ c ≤ '9' then some (c.toNat - '0'.toNat)
  else if 'a' ≤ c ∧ c ≤ 'z' then some (c.toNat - 'a'.toNat + 10)
  else if 'A' ≤ c ∧ c ≤ 'Z' then some (c.toNat - 'A'.toNat + 10)
  else none

/-- Digits of a base with single underscores between them.  `bare` says that a digit stood just
    before, so that an underscore may follow. -/
def digits? (base : Nat) (bare : Bool) : List Char → Option (List Nat)
  | [] => if bare then some [] else none
  | '_' :: rest => if bare then digits? base false rest else none
  | c :: rest =>
    match baseDigit? c with
    | some value => if value < base then (digits? base true rest).map (value :: ·) else none
    | none => none

/-- The number that a list of digits stands for, the first digit weighing most. -/
def ofDigits (base : Nat) (digits : List Nat) : Nat :=
  digits.foldl (fun sum digit => base * sum + digit) 0

/-- Takes the sign off a numeral: whether it is negative, and the rest. -/
def sign : List Char → Bool × List Char
  | '-' :: rest => (true, rest)
  | '+' :: rest => (false, rest)
  | cs => (false, cs)

/-- The letter that announces a base after a leading zero. -/
def baseMarks (base : Nat) : List Char :=
  if base = 2 then ['b', 'B'] else if base = 8 then ['o', 'O']
  else if base = 16 then ['x', 'X'] else []

/-- The digits after an announced base; an underscore may follow the announcement. -/
def unmarked (base : Nat) : List Char → Bool × List Char
  | '0' :: mark :: rest =>
    if mark ∈ baseMarks base then (rest.head? == some '_', rest) else (false, '0' :: mark :: rest)
  | cs => (false, cs)

/-- Reads a whole number. -/
def integer? (base : Nat) (cs : List Char) : Option Int := do
  let (negative, body) := sign ((trim isOuterBlank cs).map asciiDigit)
  let (afterMark, body) := unmarked base body
  let digits ← digits? base afterMark body
  if base = 10 ∧ digitLimit < digits.length then none
  let magnitude : Int := ofDigits base digits
  pure (if negative then -magnitude else magnitude)

/-- How many digits a numeral in base ten starts with, whatever follows them. -/
def leadingDigits (cs : List Char) : Nat :=
  ((sign ((trim isOuterBlank cs).map asciiDigit)).2.takeWhile Char.isDigit).length

/-- The float nearest to `± digits · 10 ^ power`: an infinity when it is too large, a zero when
    it is too small. -/
def scale (negative : Bool) (digits : Nat) (power : Int) : Float :=
  let size : Int := (Nat.toDigits 10 digits).length + power
  let x :=
    if digits = 0 ∨ size < -400 then 0
    else if 400 < size then 1 / 0
    else Float.ofScientific digits (power < 0) power.natAbs
  if negative then -x else x

/-- Drops the underscores that stand between two ASCII digits; any other underscore spoils the
    numeral. -/
def withoutUnderscores? (before : Option Char) : List Char → Option (List Char)
  | [] => some []
  | '_' :: rest =>
    if before.any Char.isDigit && rest.head?.any Char.isDigit then withoutUnderscores? none rest
    else none
  | c :: rest => (withoutUnderscores? (some c) rest).map (c :: ·)

/-- The exponent of a decimal: nothing, or an `e`, a sign and digits. -/
def exponent? : List Char → Option Int
  | [] => some 0
  | c :: rest =>
    if c == 'e' || c == 'E' then
      let (negative, body) := sign rest
      if body.isEmpty || !body.all Char.isDigit then none
      else
        let size : Int := ofDigits 10 (body.filterMap baseDigit?)
        some (if negative then -size else size)
    else none

/-- Digits, an optional point, digits, an optional exponent; at least one digit before the
    exponent. -/
def unsignedDecimal? (negative : Bool) (cs : List Char) : Option Float := do
  let whole := cs.takeWhile Char.isDigit
  let rest := cs.dropWhile Char.isDigit
  let (fraction, rest) :=
    match rest with
    | '.' :: after => (after.takeWhile Char.isDigit, after.dropWhile Char.isDigit)
    | _ => ([], rest)
  if whole.isEmpty && fraction.isEmpty then none
  let power ← exponent? rest
  let digits := ofDigits 10 ((whole ++ fraction).filterMap baseDigit?)
  pure (scale negative digits (power - fraction.length))

/-- Reads a decimal. -/
def decimal? (cs : List Char) : Option Float := do
  let body ← withoutUnderscores? none ((trim isOuterBlank cs).map asciiDigit)
  let (negative, body) := sign body
  let word := String.ofList (body.map Char.toLower)
  if word == "inf" || word == "infinity" then
    pure (if negative then -(1 / 0) else 1 / 0)
  else if word == "nan" then pure (0 / 0)
  else unsignedDecimal? negative body

end PipelineCompiler.Number
