import PipelineCompiler.Number.Numeral
import PipelineCompiler.Yaml.Cursor

namespace PipelineCompiler.Yaml

/-!
# Tags and the types of plain scalars

A scalar without quotes and without a tag takes the type that its text looks like.

* `Tag`, `Tag.ofUri` — the types of nodes;
* `looksBoolean`, `looksWhole`, `looksDecimal`, `looksNull`, `moment?` — the forms of text;
* `Tag.ofPlain` — the type of a plain scalar.
-/

/-- The type of a node. -/
inductive Tag where
  | null
  | bool
  | int
  | float
  | binary
  | timestamp
  | omap
  | pairs
  | set
  | str
  | seq
  | map
  /-- The key `<<`, whose value is merged into the mapping. -/
  | merge
  /-- The key `=`, which stands for the mapping itself where a text is asked for. -/
  | value
  | unknown
deriving Repr, DecidableEq

/-- The names of the types. -/
def Tag.names : List (String × Tag) :=
  [ ("null", .null), ("bool", .bool), ("int", .int), ("float", .float), ("binary", .binary),
    ("timestamp", .timestamp), ("omap", .omap), ("pairs", .pairs), ("set", .set), ("str", .str),
    ("seq", .seq), ("map", .map), ("merge", .merge), ("value", .value) ]

/-- The text in front of the names of the types in full tags. -/
def Tag.space : String := "tag:yaml.org,2002:"

/-- The type that a full tag names. -/
def Tag.ofUri (uri : String) : Tag :=
  match Tag.names.find? fun entry => Tag.space ++ entry.1 == uri with
  | some (_, tag) => tag
  | none => .unknown

/-! ### Forms of text -/

/-- A word in the three spellings: lower case, capitalised, upper case. -/
def spellings (word : String) : List (List Char) :=
  let cs := word.toList
  [ cs, (cs.take 1).map Char.toUpper ++ cs.drop 1, cs.map Char.toUpper ]

/-- The words for truth and falsehood. -/
def looksBoolean (cs : List Char) : Bool :=
  ["yes", "no", "true", "false", "on", "off"].any fun word => (spellings word).contains cs

/-- Nothing, a tilde, or the word for null. -/
def looksNull (cs : List Char) : Bool :=
  cs.isEmpty || cs == ['~'] || (spellings "null").contains cs

/-- A digit or an underscore. -/
def isDigitOrUnderscore (c : Char) : Bool := c.isDigit || c == '_'

/-- A digit and then digits and underscores. -/
def looksDigits (cs : List Char) : Bool :=
  cs.head?.any Char.isDigit && cs.all isDigitOrUnderscore

/-- Digits and underscores that start with no zero. -/
def looksPositive (cs : List Char) : Bool := looksDigits cs && cs.head? != some '0'

/-- A place of a number in base sixty: one digit, or two of which the first is at most five. -/
def looksSixtieth : List Char → Bool
  | [a] => a.isDigit
  | [a, b] => '0' ≤ a && a ≤ '5' && b.isDigit
  | _ => false

/-- The parts of a text between its colons. -/
def colonParts (cs : List Char) : List (List Char) := cs.splitOn ':'

/-- A whole number: binary, octal after a zero, decimal, hexadecimal, or in base sixty. -/
def looksWhole (cs : List Char) : Bool :=
  let body := (Number.sign cs).2
  match body with
  | '0' :: 'b' :: rest => !rest.isEmpty && rest.all fun c => c == '0' || c == '1' || c == '_'
  | '0' :: 'x' :: rest =>
    !rest.isEmpty && rest.all fun c => (Number.baseDigit? c).any (· < 16) || c == '_'
  | '0' :: rest => rest.all fun c => ('0' ≤ c && c ≤ '7') || c == '_'
  | _ =>
    match colonParts body with
    | first :: rest => looksPositive first && rest.all looksSixtieth
    | [] => false

/-- An exponent with its sign, or nothing. -/
def looksExponent : List Char → Bool
  | [] => true
  | e :: s :: rest =>
    (e == 'e' || e == 'E') && (s == '-' || s == '+') && !rest.isEmpty && rest.all Char.isDigit
  | _ => false

/-- A number with a point, which comes first or follows digits that may be in base sixty. -/
def looksDecimal (cs : List Char) : Bool :=
  let signed := cs.head? == some '-' || cs.head? == some '+'
  let body := (Number.sign cs).2
  let whole := body.takeWhile fun c => c != '.'
  match body.drop whole.length with
  | '.' :: after =>
    let fraction := after.takeWhile isDigitOrUnderscore
    let rest := after.drop fraction.length
    -- Before the point there may be nothing, digits, or digits in base sixty.
    if whole.isEmpty then
      (!signed && looksDigits fraction && looksExponent rest) ||
        (spellings "inf").contains after ||
        (!signed && (["nan", "NaN", "NAN"].map String.toList).contains after)
    else
      match colonParts whole with
      | [digits] => looksDigits digits && looksExponent rest
      | first :: places => looksDigits first && places.all looksSixtieth && rest.isEmpty
      | [] => false
  | _ => false

/-! ### Moments -/

/-- A date, and the time of day when there is one. -/
structure Moment where
  year : Nat
  month : Nat
  day : Nat
  /-- Whether month and day have two digits. -/
  isPadded : Bool
  /-- Hour, minute, second, microsecond, minutes ahead of universal time. -/
  time : Option (Nat × Nat × Nat × Nat × Option Int)

/-- Between `least` and `most` digits: their value, their count, and what follows. -/
def digitRun? (least most : Nat) (cs : List Char) : Option (Nat × Nat × List Char) :=
  let digits := (cs.takeWhile Char.isDigit).take most
  if least ≤ digits.length then
    some (Number.ofDigits 10 (digits.filterMap Number.baseDigit?), digits.length,
      cs.drop digits.length)
  else none

/-- One given character. -/
def expect? (c : Char) : List Char → Option (List Char)
  | x :: rest => if x = c then some rest else none
  | [] => none

/-- Drops spaces and tabs. -/
def dropBlanks (cs : List Char) : List Char := cs.dropWhile fun c => c == ' ' || c == '\t'

/-- The zone behind a time: nothing, `Z`, or a sign with hours and perhaps minutes. -/
def zone? (cs : List Char) : Option (Option Int) :=
  if cs.isEmpty then some none
  else
    match dropBlanks cs with
    | ['Z'] => some (some 0)
    | s :: rest => do
      if s != '-' && s != '+' then none
      let (hours, _, rest) ← digitRun? 1 2 rest
      let minutes ←
        if rest.isEmpty then pure 0
        else do
          let (minutes, _, rest) ← digitRun? 2 2 (← expect? ':' rest)
          if rest.isEmpty then pure minutes else none
      let offset : Int := (hours * 60 + minutes : Nat)
      pure (some (if s == '-' then -offset else offset))
    | [] => none

/-- The fraction of a second in microseconds; further digits are dropped. -/
def microseconds (digits : List Char) : Nat :=
  let six := digits.take 6
  Number.ofDigits 10 (six.filterMap Number.baseDigit?) * Nat.pow 10 (6 - six.length)

/-- The time of day after a date. -/
def time? (cs : List Char) : Option (Nat × Nat × Nat × Nat × Option Int) := do
  let cs ←
    match cs with
    | 'T' :: rest | 't' :: rest => some rest
    | c :: rest => if c == ' ' || c == '\t' then some (dropBlanks rest) else none
    | [] => none
  let (hour, _, cs) ← digitRun? 1 2 cs
  let (minute, _, cs) ← digitRun? 2 2 (← expect? ':' cs)
  let (second, _, cs) ← digitRun? 2 2 (← expect? ':' cs)
  let (fraction, cs) :=
    match cs with
    | '.' :: rest => (rest.takeWhile Char.isDigit, rest.dropWhile Char.isDigit)
    | _ => ([], cs)
  pure (hour, minute, second, microseconds fraction, ← zone? cs)

/-- A date, alone or with a time of day. -/
def moment? (cs : List Char) : Option Moment := do
  let (year, _, cs) ← digitRun? 4 4 cs
  let (month, monthDigits, cs) ← digitRun? 1 2 (← expect? '-' cs)
  let (day, dayDigits, cs) ← digitRun? 1 2 (← expect? '-' cs)
  let time ← if cs.isEmpty then some none else (time? cs).map some
  pure { year, month, day, isPadded := monthDigits == 2 && dayDigits == 2, time }

/-- A date with two digits for month and day, or a date with a time of day. -/
def looksMoment (cs : List Char) : Bool :=
  (moment? cs).any fun m => m.isPadded || m.time.isSome

/-! ### Types -/

/-- A line feed at the end does not count for the form of a text. -/
def formOf (cs : List Char) : List Char :=
  if 1 < cs.length && cs.getLast? == some '\n' then cs.dropLast else cs

/-- The type of a scalar without quotes and tag. -/
def Tag.ofPlain (text : String) : Tag :=
  let cs := formOf text.toList
  if looksBoolean cs then .bool
  else if looksDecimal cs then .float
  else if looksWhole cs then .int
  else if cs == ['<', '<'] then .merge
  else if looksNull cs then .null
  else if looksMoment cs then .timestamp
  else if cs == ['='] then .value
  else if cs == ['!'] || cs == ['&'] || cs == ['*'] then .unknown
  else .str

end PipelineCompiler.Yaml
