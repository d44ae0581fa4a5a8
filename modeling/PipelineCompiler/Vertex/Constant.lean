import PipelineCompiler.Failure.Basic
import PipelineCompiler.Number.Numeral
import PipelineCompiler.Text.Lowercase

namespace PipelineCompiler.Vertex

/-!
# Typed constants

Parameters of pipeline jobs have one of three types, and their constants are written accordingly.

* `PrimitiveType`, `PrimitiveType.ofType` — the types, and the one a declared type stands for;
* `Constant`, `Constant.read` — constants, and the one that a text stands for;
* `Constant.readOr` — the same with a fall-back to the text itself.
-/

/-- The types of parameters. -/
inductive PrimitiveType where
  | string
  | int
  | double
deriving Repr, DecidableEq

namespace PrimitiveType

/-- The name of a type. -/
def name : PrimitiveType → String
  | .string => "STRING"
  | .int => "INT"
  | .double => "DOUBLE"

/-- The type with a name. -/
def ofName (name : String) : Except Failure PrimitiveType :=
  match [string, .int, .double].find? (·.name == name) with
  | some found => .ok found
  | none => .error (.refusal (.unknownPrimitive name))

/-- The type that a declared type stands for: whole numbers and floats are told apart by the
    usual names in any case, and everything else is a text. -/
def ofType : Value → PrimitiveType
  | .str declared =>
    let lowered := Text.lower declared
    if lowered == "integer" then .int
    else if lowered == "float" || lowered == "double" then .double
    else .string
  | _ => .string

end PrimitiveType

/-- A constant of one of the types. -/
inductive Constant where
  | string (s : String)
  | int (i : Int)
  | double (x : Float)

namespace Constant

/-- The document of a constant. -/
def toValue : Constant → Value
  | .string s => .ofFields [("stringValue", .str s)]
  | .int i => .ofFields [("intValue", .int i)]
  | .double x => .ofFields [("doubleValue", .float x)]

/-- The constant of a type that a text stands for. -/
def read (text : String) : PrimitiveType → Except Failure Constant
  | .string => .ok (.string text)
  | .int =>
    match Number.integer? 10 text.toList with
    | some i => .ok (.int i)
    | none => .error (.accident .invalidValue)
  | .double =>
    match Number.decimal? text.toList with
    | some x => .ok (.double x)
    | none => .error (.accident .invalidValue)

/-- The constant of a type that a text stands for, and whether the text had to be kept because it
    stands for none. -/
def readOr (text : String) (type : PrimitiveType) : Constant × Bool :=
  match read text type with
  | .ok constant => (constant, false)
  | .error _ => (.string text, true)

end Constant
end PipelineCompiler.Vertex
