import PipelineCompiler.Number.Digits
import PipelineCompiler.Number.Shortest
import PipelineCompiler.Text.Half
import PipelineCompiler.Text.Printable
import PipelineCompiler.Value.Basic

namespace PipelineCompiler

/-!
# Values as text for readers

Messages show values in two ways: plainly, a text standing for itself, and quoted, a text
standing between quotes with everything unprintable escaped.

* `quoted` — a quoted text;
* `Value.debug` — the quoted form of a value;
* `Value.text` — its plain form;
* `Value.isShown` — the values that have them;
* `Value.shownCalls` — how deep a value is nested, which takes as many calls to be shown.
-/

/-- Spellings of the floats in messages and keys. -/
def plainLayout : Number.Layout := ⟨"nan", "inf", "-inf", false⟩

/-- A number in lower-case hexadecimal with a fixed count of digits. -/
def hex (width n : Nat) : String :=
  let digits := String.ofList (Nat.toDigits 16 n)
  "".pushn '0' (width - digits.length) ++ digits

/-- The quote around a text: single quotes, unless only double quotes spare an escape. -/
def quoteFor (cs : List Char) : Char :=
  if '\x27' ∈ cs ∧ '\x22' ∉ cs then '\x22' else '\x27'

/-- A character between quotes. -/
def quotedChar (quote c : Char) : String :=
  let n := Text.codeOf c
  if c == quote || c == '\\' then "\\".push c
  else if c == '\n' then "\\n"
  else if c == '\r' then "\\r"
  else if c == '\t' then "\\t"
  else if Text.isPrintable c then c.toString
  else if n < 0x100 then "\\x" ++ hex 2 n
  else if n < 0x10000 then "\\u" ++ hex 4 n
  else "\\U" ++ hex 8 n

/-- A text between quotes. -/
def quoted (s : String) : String :=
  let quote := quoteFor s.toList
  quote.toString ++ String.join (s.toList.map (quotedChar quote)) ++ quote.toString

/-- A byte between quotes: printable ASCII as itself. -/
def quotedByte (quote : Char) (b : UInt8) : String :=
  let n := b.toNat
  if 0x20 ≤ n ∧ n < 0x7F then quotedChar quote (Char.ofNat n)
  else if n = 0x0A then "\\n"
  else if n = 0x0D then "\\r"
  else if n = 0x09 then "\\t"
  else "\\x" ++ hex 2 n

/-- Bytes between quotes, after a `b`. -/
def quotedBytes (bytes : List UInt8) : String :=
  let quote := quoteFor (bytes.map fun b => Char.ofNat b.toNat)
  "b" ++ quote.toString ++ String.join (bytes.map (quotedByte quote)) ++ quote.toString

/-- A day by the numbers that make it. -/
def Date.debug (d : Date) : String :=
  let numbers := [d.year, d.month, d.day]
  "datetime.date(" ++ ", ".intercalate (numbers.map toString) ++ ")"

/-- A distance to universal time. -/
def zoneDebug (offset : Int) : String :=
  if offset = 0 then "datetime.timezone.utc" else "datetime.timezone(" ++ spanText offset ++ ")"

/-- A moment by the numbers that make it, seconds and microseconds only when they count. -/
def Timestamp.debug (t : Timestamp) : String :=
  let day := [t.date.year, t.date.month, t.date.day, t.hour, t.minute]
  let rest :=
    if t.microsecond ≠ 0 then [t.second, t.microsecond]
    else if t.second ≠ 0 then [t.second] else []
  let numbers := (day ++ rest).map toString
  let zone := t.offset.toList.map fun o => "tzinfo=" ++ zoneDebug o
  "datetime.datetime(" ++ ", ".intercalate (numbers ++ zone) ++ ")"

namespace Value

/-- What stands for a value inside itself. -/
def ellipsis : Value → String
  | .map _ => "\x7b...\x7d"
  | _ => "[...]"

mutual

/-- The quoted form of a value inside values at the places `around`.  A value inside itself is
    not shown again. -/
def debugWithin (around : List Nat) : Value → String
  | .null => "None"
  | .bool b => if b then "True" else "False"
  | .int i => toString i
  | .float x => Number.render plainLayout x
  | .str s => quoted s
  | .bytes b => quotedBytes b
  | .date d => d.debug
  | .timestamp t => t.debug
  | .list items => "[" ++ ", ".intercalate (debugItems around items) ++ "]"
  -- A tuple of one item has a comma, and an empty set is no mapping.
  | .tuple [item] => "(" ++ debugWithin around item ++ ",)"
  | .tuple items => "(" ++ ", ".intercalate (debugItems around items) ++ ")"
  | .set [] => "set()"
  | .set items => "\x7b" ++ ", ".intercalate (debugItems around items) ++ "\x7d"
  | .map entries => "\x7b" ++ ", ".intercalate (debugEntries around entries) ++ "\x7d"
  | .placed place v =>
    if place ∈ around then v.ellipsis else debugWithin (place :: around) v
  | .endless => "..."

/-- The quoted forms of the items of a list. -/
def debugItems (around : List Nat) : List Value → List String
  | [] => []
  | item :: rest => debugWithin around item :: debugItems around rest

/-- The entries of a mapping as `key: value`. -/
def debugEntries (around : List Nat) : List (Value × Value) → List String
  | [] => []
  | (key, value) :: rest =>
    (debugWithin around key ++ ": " ++ debugWithin around value) :: debugEntries around rest

end

/-- The quoted form of a value. -/
def debug (v : Value) : String := v.debugWithin []

/-- The plain form of a value. -/
def text (v : Value) : String :=
  match v.bare with
  | .str s => s
  | .date d => d.text
  | .timestamp t => t.text " "
  | _ => v.debug

mutual

/-- Whether a value inside values at the places `around` can be shown: every whole number in it
    has few enough digits. -/
def isShownWithin (around : List Nat) : Value → Bool
  | .int i => !Number.isTooLong i
  | .list items | .tuple items | .set items => areShown around items
  | .map entries => areShownEntries around entries
  | .placed place v => place ∈ around || isShownWithin (place :: around) v
  | _ => true

/-- Whether the items of a list can be shown. -/
def areShown (around : List Nat) : List Value → Bool
  | [] => true
  | item :: rest => isShownWithin around item && areShown around rest

/-- Whether the entries of a mapping can be shown. -/
def areShownEntries (around : List Nat) : List (Value × Value) → Bool
  | [] => true
  | (key, value) :: rest =>
    isShownWithin around key && isShownWithin around value && areShownEntries around rest

end

/-- Whether a value has a quoted and a plain form. -/
def isShown (v : Value) : Bool := v.isShownWithin []

mutual

/-- How many calls are open at once at most while a value is shown: one for each of the values
    inside one another. -/
def shownCalls : Value → Nat
  | .list items | .tuple items | .set items => 1 + shownCallsOfItems items
  | .map entries => 1 + shownCallsOfEntries entries
  | .placed _ v => shownCalls v
  | _ => 1

/-- The same for the items of a list. -/
def shownCallsOfItems : List Value → Nat
  | [] => 0
  | item :: rest => max (shownCalls item) (shownCallsOfItems rest)

/-- The same for the entries of a mapping. -/
def shownCallsOfEntries : List (Value × Value) → Nat
  | [] => 0
  | (key, value) :: rest =>
    max (max (shownCalls key) (shownCalls value)) (shownCallsOfEntries rest)

end

end Value
end PipelineCompiler
