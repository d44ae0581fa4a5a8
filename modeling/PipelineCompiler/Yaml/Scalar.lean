import PipelineCompiler.Text.Lowercase
import PipelineCompiler.Value.Quoted
import PipelineCompiler.Yaml.Node

namespace PipelineCompiler.Yaml

/-!
# The values of scalars

A scalar has the value that its text has in its type.

* `wholeValue`, `decimalValue`, `momentValue`, `bytesValue`, `booleanValue` — the types whose
  texts have a form;
* `Nodes.text` — the text of a node where a scalar is asked for;
* `Nodes.scalarValue` — the value of a node that is no collection.
-/

/-! ### Numbers -/

/-- Takes the sign off a number; a number without text cannot be read. -/
def signOf (cs : List Char) : Except Fault (Bool × List Char) :=
  if cs.isEmpty then .error .illTyped else .ok (Number.sign cs)

/-- The reason why a text is no integer: it has too many digits, or else it does not look like
    one.  The text is shown as far as it can stand on a line. -/
def integerReason (base : Nat) (cs : List Char) : String :=
  let digits := Number.leadingDigits cs
  if base = 10 ∧ Number.digitLimit < digits then Number.tooLongMessage digits
  else
    let shown := (quoted (String.ofList cs)).toList.take 200
    s!"invalid literal for int() with base {base}: " ++ String.ofList shown

/-- The integer of a text, or the fault of a text that is no integer. -/
def integerOf (base : Nat) (cs : List Char) : Except Fault Int :=
  match Number.integer? base cs with
  | some i => .ok i
  | none => .error (.invalidValue (integerReason base cs))

/-- The value of places in base sixty, the first weighing most. -/
def sexagesimal (places : List Int) : Int := places.foldl (fun sum place => sum * 60 + place) 0

/-- A whole number in one of its notations. -/
def wholeValue (text : String) : Except Fault Int := do
  let (negative, cs) ← signOf (text.toList.filter (· != '_'))
  let magnitude ←
    match cs with
    | [] => .error .illTyped
    | ['0'] => pure 0
    | '0' :: 'b' :: digits => integerOf 2 digits
    | '0' :: 'x' :: digits => integerOf 16 digits
    | '0' :: _ => integerOf 8 cs
    | _ =>
      if cs.contains ':' then
        pure (sexagesimal (← (colonParts cs).mapM (integerOf 10)))
      else integerOf 10 cs
  pure (if negative then -magnitude else magnitude)

/-- The float of a text, or the fault of a text that is no decimal. -/
def decimalOf (cs : List Char) : Except Fault Float :=
  match Number.decimal? cs with
  | some x => .ok x
  | none =>
    .error (.invalidValue ("could not convert string to float: " ++ quoted (String.ofList cs)))

/-- Adds places in base sixty from the last to the first, rounding after every step.  The weight
    of a place must be a finite float. -/
def sexagesimalFloat : (weight : Nat) → (sum : Float) → List Float → Except Fault Float
  | _, sum, [] => .ok sum
  | weight, sum, place :: rest =>
    let factor := Float.ofNat weight
    if factor.isInf then .error .illTyped
    else sexagesimalFloat (weight * 60) (sum + place * factor) rest

/-- The float that was computed for the node at a place.  A NaN that was computed differs from
    every other. -/
def computed (place : Nat) (x : Float) : Value :=
  if x.isNaN then .placed place (.float x) else .float x

/-- A decimal in one of its notations, for the node at a place. -/
def decimalValue (place : Nat) (text : String) : Except Fault Value := do
  let lowered := Text.lower (String.ofList (text.toList.filter (· != '_')))
  let (negative, cs) ← signOf lowered.toList
  let sign : Float := if negative then -1 else 1
  if cs == ".inf".toList then pure (.float (sign * (1 / 0)))
  else if cs == ".nan".toList then pure (.float (0 / 0))
  else if cs.contains ':' then
    let places ← (colonParts cs).mapM decimalOf
    pure (computed place (sign * (← sexagesimalFloat 1 0 places.reverse)))
  else pure (computed place (sign * (← decimalOf cs)))

/-! ### Other forms -/

/-- A date or a timestamp that exists. -/
def momentValue (text : String) : Except Fault Value :=
  match moment? (formOf text.toList) with
  | none => .error .illTyped
  | some m =>
    let date := Date.make m.year m.month m.day
    let found :=
      match m.time with
      | none => date.map Value.date
      | some (hour, minute, second, microsecond, offset) =>
        (Timestamp.make date hour minute second microsecond offset).map Value.timestamp
    found.mapError .invalidValue

/-- The value of a base-64 digit. -/
def base64Digit? (c : Char) : Option Nat :=
  "ABCDEFGHIJKLMNOPQRSTUVWXYZabcdefghijklmnopqrstuvwxyz0123456789+/".toList.idxOf? c

/-- Bytes from base-64 digits.  `place` counts the digits of the current group, `left` holds the
    bits that no byte has taken, and `pads` counts the `=` since the last digit.  Characters that
    are no digits are skipped. -/
def base64From (place left pads : Nat) : List Char → Option (List UInt8)
  | [] => if place = 0 then some [] else none
  | '=' :: rest =>
    if 2 ≤ place then
      if 4 ≤ place + pads + 1 then some [] else base64From place left (pads + 1) rest
    else base64From place left pads rest
  | c :: rest =>
    match base64Digit? c with
    | none => base64From place left pads rest
    | some digit =>
      if place = 0 then base64From 1 digit 0 rest
      else if place = 1 then
        (base64From 2 (digit % 16) 0 rest).map (UInt8.ofNat (left * 4 + digit / 16) :: ·)
      else if place = 2 then
        (base64From 3 (digit % 4) 0 rest).map (UInt8.ofNat (left * 16 + digit / 4) :: ·)
      else (base64From 0 0 0 rest).map (UInt8.ofNat (left * 64 + digit) :: ·)

/-- Bytes in base 64. -/
def bytesValue (text : String) : Except Fault Value :=
  let cs := text.toList
  if cs.all fun c => c.toNat < 128 then
    match base64From 0 0 0 cs with
    | some bytes => .ok (.bytes bytes)
    | none => .error .malformed
  else .error .malformed

/-- The truth value of a word. -/
def booleanValue (text : String) : Except Fault Value :=
  let word := Text.lower text
  if word == "yes" || word == "true" || word == "on" then .ok (.bool true)
  else if word == "no" || word == "false" || word == "off" then .ok (.bool false)
  else .error .illTyped

/-! ### Nodes -/

/-- The text of the node at a place where a scalar is asked for.  The text of a mapping is that of
    the value under its key `=`; a mapping that stands for itself has none. -/
def Nodes.text (nodes : Nodes) : (fuel : Nat) → (place : Nat) → Except Fault String
  | 0, _ => .error .illTyped
  | fuel + 1, place =>
    match nodes.content place with
    | .scalar text => .ok text
    | .sequence _ => .error .malformed
    | .mapping entries =>
      match entries.find? fun entry => nodes.tag entry.1 == .value with
      | some entry => nodes.text fuel entry.2
      | none => .error .malformed

/-- Whether the node at a place is a mapping. -/
def Nodes.isMapping (nodes : Nodes) (place : Nat) : Bool :=
  match nodes.content place with
  | .mapping _ => true
  | _ => false

/-- The value of the node at a place, whose type is that of a scalar. -/
def Nodes.scalarValue (nodes : Nodes) (place : Nat) : Except Fault Value := do
  let text := nodes.text (nodes.size + 1) place
  match nodes.tag place with
  | .null => text.map fun _ => .null
  | .bool => booleanValue (← text)
  | .int => (wholeValue (← text)).map .int
  | .float => decimalValue place (← text)
  | .binary => bytesValue (← text)
  | .timestamp =>
    let text ← text
    if nodes.isMapping place then throw .illTyped else momentValue text
  | .str => text.map .str
  | _ => throw .malformed

end PipelineCompiler.Yaml
