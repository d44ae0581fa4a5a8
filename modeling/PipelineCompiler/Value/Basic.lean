import PipelineCompiler.Number.Shortest
import PipelineCompiler.Value.Calendar

namespace PipelineCompiler

/-!
# Data values

The trees that documents and configurations are read into and written from.

* `Value` — scalars, lists and mappings; the keys of a mapping are values too and keep the order
  in which they were written; a value may carry the place where it stands;
* `Value.bare`, `Value.place?` — a value without its place, and the place;
* `Value.sameKey` — when two keys are the same: numbers by their value, whatever their type;
* `Value.get?`, `Value.put` — looking up and writing a key;
* `Value.ofFields`, `Value.field?` — mappings with text keys;
* `Value.typeName`, `Value.isTruthy` — the name of the type and the test for emptiness.
-/

/-- A data value.  Tuples, sets, dates, timestamps and bytes come from typed documents only.

    A document may let one value stand at several places, even inside itself.  Its values carry
    the place where they were written, and two values with one place are one value.  A value
    that contains itself is unrolled as far as anybody looks. -/
inductive Value where
  | null
  | bool (value : Bool)
  | int (value : Int)
  | float (value : Float)
  | str (value : String)
  | bytes (value : List UInt8)
  | date (value : Date)
  | timestamp (value : Timestamp)
  | list (items : List Value)
  | tuple (items : List Value)
  | set (items : List Value)
  | map (entries : List (Value × Value))
  /-- A value with the place where it was written. -/
  | placed (place : Nat) (value : Value)
  /-- What lies beyond the last unrolling of a value that contains itself. -/
  | endless
deriving Inhabited

namespace Value

/-- The entries of a mapping whose keys are values. -/
abbrev Entries := List (Value × Value)

/-! ### Places -/

/-- A value without its place. -/
def bare : Value → Value
  | .placed _ v => v.bare
  | v => v

/-- The place where a value was written, if it carries one. -/
def place? : Value → Option Nat
  | .placed place _ => some place
  | _ => none

/-! ### Equality -/

mutual

/-- Structural equality, with the floats told apart by their bits. -/
def beq : Value → Value → Bool
  | .null, .null => true
  | .bool a, .bool b => a == b
  | .int a, .int b => a == b
  | .float a, .float b => a.toBits == b.toBits
  | .str a, .str b => a == b
  | .bytes a, .bytes b => a == b
  | .date a, .date b => a == b
  | .timestamp a, .timestamp b => a == b
  | .list a, .list b => beqItems a b
  | .tuple a, .tuple b => beqItems a b
  | .set a, .set b => beqItems a b
  | .map a, .map b => beqEntries a b
  | .placed p a, .placed q b => p == q && beq a b
  | .endless, .endless => true
  | _, _ => false

/-- Equality of lists, item by item. -/
def beqItems : List Value → List Value → Bool
  | [], [] => true
  | a :: as, b :: bs => beq a b && beqItems as bs
  | _, _ => false

/-- Equality of mappings, entry by entry and in order. -/
def beqEntries : List (Value × Value) → List (Value × Value) → Bool
  | [], [] => true
  | (k, v) :: as, (l, w) :: bs => beq k l && beq v w && beqEntries as bs
  | _, _ => false

end

instance : BEq Value := ⟨beq⟩

/-- The value of a number that is whole, booleans counting as `0` and `1`. -/
def whole? : Value → Option Int
  | .bool b => some (if b then 1 else 0)
  | .int i => some i
  | .float x => Number.whole? x
  | .placed _ v => v.whole?
  | _ => none

/-- Whether two scalars are the same key.  Numbers are compared by value; a NaN is the same as
    another when they have the same place; two moments with a known zone are compared as
    instants. -/
def sameScalar (a b : Value) : Bool :=
  match a.whole?, b.whole? with
  | some i, some j => i == j
  | some _, none => false
  | none, some _ => false
  | none, none =>
    match a.bare, b.bare with
    | .float x, .float y => x == y || (x.isNaN && y.isNaN && a.place? == b.place?)
    | .timestamp s, .timestamp t =>
      s.offset.isSome == t.offset.isSome && s.instant == t.instant
    | v, w => v == w

/-- Whether two keys are the same key: scalars, or tuples of scalars. -/
def sameKey (a b : Value) : Bool :=
  match a.bare, b.bare with
  | .tuple xs, .tuple ys =>
    xs.length == ys.length && (xs.zip ys).all fun pair => sameScalar pair.1 pair.2
  | _, _ => sameScalar a b

/-! ### Mappings -/

/-- The value under a key. -/
def get? : Entries → Value → Option Value
  | [], _ => none
  | (k, v) :: rest, key => if k.sameKey key then some v else get? rest key

/-- Writes a key: in place, with the key first written, when it is there, at the end
    otherwise. -/
def put : Entries → Value → Value → Entries
  | [], key, value => [(key, value)]
  | (k, v) :: rest, key, value =>
    if k.sameKey key then (k, value) :: rest else (k, v) :: put rest key value

/-- Writes entries one after another. -/
def entriesOf (entries : Entries) : Entries :=
  entries.foldl (fun done entry => put done entry.1 entry.2) []

/-- The value of a field, that is, of a text key. -/
def field? : Entries → String → Option Value
  | [], _ => none
  | (.str k, v) :: rest, name => if k = name then some v else field? rest name
  | (_, _) :: rest, name => field? rest name

/-- The value of a field, null when it is absent. -/
def fieldOrNull (entries : Entries) (name : String) : Value := (field? entries name).getD .null

/-- A mapping with text keys. -/
def ofFields (fields : List (String × Value)) : Value :=
  .map (fields.map fun field => (.str field.1, field.2))

/-- A list of texts. -/
def ofTexts (texts : List String) : Value := .list (texts.map .str)

/-- Whether a value is a mapping. -/
def isMapping (v : Value) : Bool :=
  match v.bare with
  | .map _ => true
  | _ => false

/-- Whether a value has parts that may change, and therefore is no key. -/
def isCollection (v : Value) : Bool :=
  match v.bare with
  | .list _ | .set _ | .map _ => true
  | _ => false

/-- Whether a value may be the key of a mapping. -/
def isHashable (v : Value) : Bool :=
  match v.bare with
  | .list _ | .set _ | .map _ => false
  | .tuple items => items.all fun item => !item.isCollection
  | _ => true

/-! ### Type and emptiness -/

/-- The name of the type of a value. -/
def typeName : Value → String
  | .null => "NoneType"
  | .bool _ => "bool"
  | .int _ => "int"
  | .float _ => "float"
  | .str _ => "str"
  | .bytes _ => "bytes"
  | .date _ => "date"
  | .timestamp _ => "datetime"
  | .list _ => "list"
  | .tuple _ => "tuple"
  | .set _ => "set"
  | .map _ => "dict"
  | .placed _ v => v.typeName
  | .endless => "list"

/-- False for null, false, zeros and everything empty. -/
def isTruthy : Value → Bool
  | .null => false
  | .bool b => b
  | .int i => i != 0
  | .float x => !(x == 0)
  | .str s => !s.isEmpty
  | .bytes b => !b.isEmpty
  | .date _ | .timestamp _ => true
  | .list items | .tuple items | .set items => !items.isEmpty
  | .map entries => !entries.isEmpty
  | .placed _ v => v.isTruthy
  | .endless => true

/-- Replaces a value that is not truthy. -/
def orElse (v default : Value) : Value := if v.isTruthy then v else default

end Value
end PipelineCompiler
