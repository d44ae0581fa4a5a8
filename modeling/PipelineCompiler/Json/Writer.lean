import PipelineCompiler.Failure.Basic
import PipelineCompiler.Value.Order

namespace PipelineCompiler.Json

/-!
# Writing JSON

* `Style` — one line or indented, the two separators, the order of keys;
* `Style.canonical`, `Style.indented` — the two styles in use;
* `quote` — a text as a JSON string;
* `write` — the JSON text of a value; values that JSON has no form for have none.
-/

/-- How a JSON text is laid out. -/
structure Style where
  /-- The blanks per level; without it everything stands on one line. -/
  indent : Option Nat
  itemSeparator : String
  keySeparator : String
  /-- Whether the keys of a mapping are put in order. -/
  sorted : Bool

/-- Keys in order and no blanks: equal data has one text. -/
def Style.canonical : Style := ⟨none, ",", ":", true⟩

/-- Keys as they stand; with an indentation every item has a line of its own. -/
def Style.indented (indent : Option Int) : Style :=
  { indent := indent.map Int.toNat
    itemSeparator := if indent.isSome then "," else ", "
    keySeparator := ": "
    sorted := false }

/-- Spellings of the floats in JSON. -/
def layout : Number.Layout := ⟨"NaN", "Infinity", "-Infinity", false⟩

/-- A character of a JSON string; only quotes, backslashes and controls are escaped. -/
def quoteChar (c : Char) : String :=
  if c == '\x22' then "\\\""
  else if c == '\\' then "\\\\"
  else if c == '\n' then "\\n"
  else if c == '\r' then "\\r"
  else if c == '\t' then "\\t"
  else if c == '\x08' then "\\b"
  else if c == '\x0c' then "\\f"
  else if c.toNat < 0x20 then "\\u" ++ hex 4 c.toNat
  else c.toString

/-- A text as a JSON string. -/
def quote (s : String) : String := "\"" ++ String.join (s.toList.map quoteChar) ++ "\""

/-- The JSON text of a scalar.  Bytes and moments have none, and numbers with too many digits
    cannot be written. -/
def scalar : Value → Except Failure String
  | .null => .ok "null"
  | .bool b => .ok (if b then "true" else "false")
  | .int i => if Number.isTooLong i then .error .invalidValue else .ok (toString i)
  | .float x => .ok (Number.render layout x)
  | .str s => .ok (quote s)
  | _ => .error .illTyped

/-- A key is a text; the other scalars become the texts that they are written as. -/
def key (v : Value) : Except Failure String :=
  match v.bare with
  | .str s => .ok (quote s)
  | v => (scalar v).map quote

/-- The line break and indentation of a level. -/
def Style.newline (style : Style) (level : Nat) : String :=
  match style.indent with
  | some width => "\n".pushn ' ' (width * level)
  | none => ""

/-- Items between brackets, nothing between the brackets when there are none. -/
def Style.enclose (style : Style) (level : Nat) (opening closing : String)
    (items : List String) : String :=
  if items.isEmpty then opening ++ closing
  else
    opening ++ style.newline (level + 1) ++
      (style.itemSeparator ++ style.newline (level + 1)).intercalate items ++
      style.newline level ++ closing

/-- Puts the written entries of a mapping in the order that the style asks for. -/
def Style.arrange (style : Style) (entries : List (Value × String)) :
    Except Failure (List (Value × String)) :=
  if style.sorted then
    match Value.sortOn? (·.1) entries with
    | some arranged => .ok arranged
    | none => .error .illTyped
  else .ok entries

mutual

/-- The JSON text of a value at a level, inside values at the places `around`.  A value inside
    itself cannot be written. -/
def writeWithin (style : Style) (around : List Nat) (level : Nat) :
    Value → Except Failure String
  | .list items | .tuple items => do
    let texts ← writeItems style around (level + 1) items
    pure (style.enclose level "[" "]" texts)
  | .map entries => do
    let written ← writeEntries style around (level + 1) entries
    let arranged ← style.arrange written
    pure (style.enclose level "\x7b" "\x7d" (arranged.map (·.2)))
  | .placed place v =>
    if place ∈ around then .error .invalidValue
    else writeWithin style (place :: around) level v
  | v => scalar v

/-- The JSON texts of the items of a list. -/
def writeItems (style : Style) (around : List Nat) (level : Nat) :
    List Value → Except Failure (List String)
  | [] => .ok []
  | item :: rest => do
    let text ← writeWithin style around level item
    let texts ← writeItems style around level rest
    pure (text :: texts)

/-- The entries of a mapping, each as its key and its text `key: value`. -/
def writeEntries (style : Style) (around : List Nat) (level : Nat) :
    List (Value × Value) → Except Failure (List (Value × String))
  | [] => .ok []
  | (name, value) :: rest => do
    let keyText ← key name
    let text ← writeWithin style around level value
    let texts ← writeEntries style around level rest
    pure ((name, keyText ++ style.keySeparator ++ text) :: texts)

end

/-- The JSON text of a value. -/
def write (style : Style) (v : Value) : Except Failure String := writeWithin style [] 0 v

end PipelineCompiler.Json
