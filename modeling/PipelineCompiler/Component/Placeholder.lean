import PipelineCompiler.Component.Basic
import PipelineCompiler.Failure.Basic
import PipelineCompiler.Text.Blank
import PipelineCompiler.Value.Order

namespace PipelineCompiler

/-!
# Reading placeholders and arguments

The serialized form of a placeholder is a scalar or a mapping with one key that tells its kind;
so is that of a condition and of an argument.

* `nameOf?` — a text that is not blank;
* `Condition.ofValue`, `Placeholder.parse`, `Argument.parse` — the three grammars;
* `callLimit`, `withinCalls` — no more than so many calls may be open at once;
* `Placeholder.callsFor`, `Argument.callsFor` — how many are while a value is read;
* `Placeholder.ofValue`, `Argument.ofValue` — what is read within the limit.
-/

/-- A text with a character that is not blank. -/
def nameOf? : Value → Option String
  | .str s => if Text.isBlankText s then none else some s
  | _ => none

/-- The text of a scalar, a text itself, a truth value or number in its plain form.  Other values
    have none. -/
def scalarText? (v : Value) : Except Failure (Option String) :=
  match v.bare with
  | .str s => .ok (some s)
  | .bool _ | .int _ | .float _ => v.shownText.map some
  | _ => .ok none

/-- The fault of a mapping that has not one key.  Keys that have no order cannot be listed. -/
def notOneKey (what : String) (entries : Value.Entries) : Failure :=
  match Value.arranged? (entries.map (·.1)) with
  | some keys => .showing keys (.ofPlaceholder (.notOneKey what keys))
  | none => .illTyped

/-- The name under a placeholder of a kind. -/
def nameUnder (kind noun : String) (v : Value) : Except Failure String :=
  match nameOf? v with
  | some name => .ok name
  | none => .error (.ofSpec (.unnamed kind noun))

/-- Reads a condition. -/
def Condition.ofValue (v : Value) : Except Failure Condition :=
  match v.bare with
  | .bool b => .ok (.bool b)
  | .str s => .ok (.text s)
  | .map [(kind, value)] =>
    if kind == .str "isPresent" then
      (nameUnder "isPresent" "input" value).map .isPresent
    else if kind == .str "inputValue" then
      (nameUnder "inputValue" "input" value).map .inputValue
    else .error (.showing [kind] (.ofPlaceholder (.unknownConditionKind kind)))
  | .map entries => .error (notOneKey "if.cond" entries)
  | other => .error (.ofPlaceholder (.unknownCondition other.typeName))

namespace Placeholder

/-- Reads a placeholder that is no mapping. -/
def ofScalar (v : Value) : Except Failure Placeholder := do
  match ← scalarText? v with
  | some text => pure (.literal text)
  | none => throw (.showing [v] (.ofPlaceholder (.unknownItem v)))

mutual

/-- Reads a placeholder. -/
def parse : Value → Except Failure Placeholder
  | .map [(kind, value)] =>
    if kind == .str "inputValue" then
      (nameUnder "inputValue" "input" value).map .inputValue
    else if kind == .str "inputPath" then
      (nameUnder "inputPath" "input" value).map .inputPath
    else if kind == .str "outputPath" then
      (nameUnder "outputPath" "output" value).map .outputPath
    else if kind == .str "concat" then (listOf "concat" value).map .concat
    else if kind == .str "if" then branchOf value
    else .error (.showing [kind] (.ofPlaceholder (.unknownKind kind)))
  | .map entries => .error (notOneKey "placeholder" entries)
  | .placed place v => if v.isMapping then parse v else ofScalar (.placed place v)
  | .endless => .error .illTyped
  | v => ofScalar v

/-- Reads a list of placeholders. -/
def listOf (what : String) : Value → Except Failure (List Placeholder)
  | .list items => ofValues items
  | .placed _ v => listOf what v
  | .endless => .error .illTyped
  | _ => .error (.ofSpec (.notAList what))

/-- Reads placeholders one after another. -/
def ofValues : List Value → Except Failure (List Placeholder)
  | [] => .ok []
  | item :: rest => do
    let found ← parse item
    let others ← ofValues rest
    pure (found :: others)

/-- Reads a condition with its branches. -/
def branchOf : Value → Except Failure Placeholder
  | .map fields => do
    let some condition := Value.field? fields "cond"
      | throw (.ofSpec (.missing "if.cond"))
    if (Value.field? fields "then").isNone then
      throw (.ofSpec (.missing "if.then"))
    let condition ← Condition.ofValue condition
    let yes ← yesOf fields
    let no ← noOf fields
    pure (.branch condition yes no)
  | .placed _ v => branchOf v
  | .endless => .error .illTyped
  | _ => .error (.ofSpec (.notAMapping "if"))

/-- Reads the branch that is taken when the condition holds. -/
def yesOf : List (Value × Value) → Except Failure (List Placeholder)
  | [] => .error (.ofSpec (.missing "if.then"))
  | (key, value) :: rest => if key == .str "then" then listOf "if.then" value else yesOf rest

/-- Reads the other branch; null counts as absent. -/
def noOf : List (Value × Value) → Except Failure (Option (List Placeholder))
  | [] => .ok none
  | (key, value) :: rest =>
    if key == .str "else" then
      if value == .null then .ok none else (listOf "if.else" value).map some
    else noOf rest

end

end Placeholder

/-- The name under a field of an argument. -/
def requiredName (fields : Value.Entries) (kind name : String) : Except Failure String :=
  match nameOf? (Value.fieldOrNull fields name) with
  | some found => .ok found
  | none => .error (.ofSpec (.missing (kind ++ "." ++ name)))

/-- Reads an argument of a kind. -/
def Argument.ofKind (kind : Value) : Value → Except Failure Argument
  | .map fields =>
    if kind == .str "graphInput" then do
      let input ← requiredName fields "graphInput" "inputName"
      pure (.graphInput input (Value.fieldOrNull fields "type"))
    else if kind == .str "taskOutput" then do
      let task ← requiredName fields "taskOutput" "taskId"
      let output ← requiredName fields "taskOutput" "outputName"
      pure (.taskOutput { task, output, type := Value.fieldOrNull fields "type" })
    else .error (.ofSpec (.unknownArgumentKind kind))
  | _ => .error (.ofSpec (.argumentNotAMapping kind))

/-- Reads an argument, which has to be one that can be shown. -/
def Argument.parse (v : Value) : Except Failure Argument := do
  match ← scalarText? v with
  | some text => pure (.literal text)
  | none =>
    if v.isShown then
      match v.bare with
      | .map [(kind, found)] => Argument.ofKind kind found.bare
      | .map entries => throw (notOneKey "argument" entries)
      | _ => throw (.ofSpec (.unknownArgument v))
    else throw .invalidValue

/-! ### Open calls

Placeholders lie inside one another, and so do the calls that read them.  Only so many calls may be
open at once.  What counts is how deep the reading gets: where it fails, nothing behind is read. -/

/-- The most calls that may be open at once, apart from those around the reading and from those that
    return without another one of these. -/
def callLimit : Nat := 985

/-- A result that was reached with so many calls open at once. -/
def withinCalls (limit calls : Nat) (result : Except Failure α) : Except Failure α :=
  if calls ≤ limit then result else .error .illTyped

/-- The calls of a step, and of what follows it if it does not fail. -/
def callsThen (step : Except Failure α) (calls others : Nat) : Nat :=
  if step.isOk then max calls others else calls

namespace Placeholder

/-- The calls for a placeholder that is no mapping.  What is no scalar is shown. -/
def callsForScalar (v : Value) : Nat :=
  match scalarText? v with
  | .ok none => 1 + v.shownCalls
  | _ => 1

mutual

/-- How many calls are open at once at most while a placeholder is read. -/
def callsFor : Value → Nat
  | .map [(kind, value)] =>
    if kind == .str "concat" then 1 + callsForList value
    else if kind == .str "if" then 1 + callsForBranch value
    else 1
  | .map _ => 1
  | .placed place v => if v.isMapping then callsFor v else callsForScalar (.placed place v)
  | v => callsForScalar v

/-- The calls for a list of placeholders: one for the list and one that goes through it. -/
def callsForList : Value → Nat
  | .list items => 2 + callsForItems items
  | .placed _ v => callsForList v
  | _ => 1

/-- The calls for placeholders one after another. -/
def callsForItems : List Value → Nat
  | [] => 0
  | item :: rest => callsThen (parse item) (callsFor item) (callsForItems rest)

/-- The calls for the branches of a condition. -/
def callsForBranch : Value → Nat
  | .map fields =>
    match Value.field? fields "cond" with
    | none => 0
    | some condition =>
      if (Value.field? fields "then").isNone then 0
      else
        callsThen (Condition.ofValue condition) 0
          (callsThen (yesOf fields) (callsForYes fields) (callsForNo fields))
  | .placed _ v => callsForBranch v
  | _ => 0

/-- The calls for the branch that is taken when the condition holds. -/
def callsForYes : List (Value × Value) → Nat
  | [] => 0
  | (key, value) :: rest => if key == .str "then" then callsForList value else callsForYes rest

/-- The calls for the other branch. -/
def callsForNo : List (Value × Value) → Nat
  | [] => 0
  | (key, value) :: rest =>
    if key == .str "else" then
      if value == .null then 0 else callsForList value
    else callsForNo rest

end

/-- Reads a placeholder with at most `limit` calls open at once. -/
def ofValueWithin (limit : Nat) (v : Value) : Except Failure Placeholder :=
  withinCalls limit (callsFor v) (parse v)

/-- Reads a placeholder. -/
def ofValue (v : Value) : Except Failure Placeholder := ofValueWithin callLimit v

end Placeholder

/-- How many calls are open at once at most while an argument is read.  What is no scalar is shown
    for a message, whether or not there will be one. -/
def Argument.callsFor (v : Value) : Nat := Placeholder.callsForScalar v

/-- Reads an argument with at most `limit` calls open at once. -/
def Argument.ofValueWithin (limit : Nat) (v : Value) : Except Failure Argument :=
  withinCalls limit (callsFor v) (parse v)

/-- Reads an argument. -/
def Argument.ofValue (v : Value) : Except Failure Argument := ofValueWithin callLimit v

end PipelineCompiler
