import PipelineCompiler.Vertex.Constant

namespace PipelineCompiler.Vertex

/-!
# What texts stand for

* `isWhole`, `isReal` — the declared types of numbers;
* `isMisread` — a text is no number of a declared type;
* `Constant.Stands` — the constant that a text stands for, of which there is one;
* `readOr_stands`, `readOr_misread` — that one is read, and a misread text is kept.
-/

/-- A declared type of whole numbers, in any case. -/
def isWhole : Value → Bool
  | .str declared => Text.lower declared == "integer"
  | _ => false

/-- A declared type of floats, in any case. -/
def isReal : Value → Bool
  | .str declared => Text.lower declared == "float" || Text.lower declared == "double"
  | _ => false

/-- A text is no number, although its type is one of numbers. -/
def isMisread (type : Value) (text : String) : Bool :=
  (isWhole type && (Number.integer? 10 text.toList).isNone) ||
    (isReal type && (Number.decimal? text.toList).isNone)

/-- A text stands for a constant: for a number when its type is one of such numbers and it can be
    read as one, and otherwise for itself. -/
def Constant.Stands (type : Value) (text : String) : Constant → Prop
  | .int i => isWhole type = true ∧ Number.integer? 10 text.toList = some i
  | .double x => isReal type = true ∧ Number.decimal? text.toList = some x
  | .string kept => kept = text ∧
      (isWhole type = true → Number.integer? 10 text.toList = none) ∧
      (isReal type = true → Number.decimal? text.toList = none)

/-- No type is one of whole numbers and one of floats. -/
theorem not_isReal_of_isWhole {type : Value} (h : isWhole type = true) : isReal type = false := by
  cases type with
  | str declared =>
    have hlower : Text.lower declared = "integer" := by simpa [isWhole] using h
    simp [isReal, hlower]
  | _ => cases h

/-- The type of parameters that a declared type stands for. -/
theorem ofType_eq (type : Value) : PrimitiveType.ofType type =
    if isWhole type then .int else if isReal type then .double else .string := by
  cases type with
  | str declared => rfl
  | _ => rfl

/-- **There is one constant that a text stands for.** -/
theorem Constant.Stands.unique {type : Value} {text : String} {a b : Constant}
    (ha : a.Stands type text) (hb : b.Stands type text) : a = b := by
  -- Each type has one kind of constant, and what can be read as a number is not kept as a text.
  cases a with
  | int i =>
    cases b with
    | int j => rw [Option.some.inj (ha.2.symm.trans hb.2)]
    | double y => exact absurd hb.1 (by simp [not_isReal_of_isWhole ha.1])
    | string kept => exact absurd ha.2 (by simp [hb.2.1 ha.1])
  | double x =>
    cases b with
    | int j => exact absurd ha.1 (by simp [not_isReal_of_isWhole hb.1])
    | double y => rw [Option.some.inj (ha.2.symm.trans hb.2)]
    | string kept => exact absurd ha.2 (by simp [hb.2.2 ha.1])
  | string kept =>
    cases b with
    | int j => exact absurd hb.2 (by simp [ha.2.1 hb.1])
    | double y => exact absurd hb.2 (by simp [ha.2.2 hb.1])
    | string kept' => rw [ha.1, hb.1]

/-- What is read of a text, and whether it is kept: a case for each type. -/
theorem readOr_cases (type : Value) (text : String) :
    (Constant.readOr text (PrimitiveType.ofType type)).1.Stands type text ∧
      (Constant.readOr text (PrimitiveType.ofType type)).2 = isMisread type text := by
  rw [ofType_eq]
  unfold Constant.readOr isMisread
  -- Three ways to read a text, by its type: as a whole number, as a real one, or as it is.
  by_cases hwhole : isWhole type = true
  · rw [if_pos hwhole]
    cases hread : Number.integer? 10 text.toList with
    | none => simp [Constant.read, hread, hwhole, Constant.Stands, not_isReal_of_isWhole hwhole]
    | some i => simp [Constant.read, hread, hwhole, Constant.Stands, not_isReal_of_isWhole hwhole]
  · rw [if_neg hwhole]
    by_cases hreal : isReal type = true
    · rw [if_pos hreal]
      cases hread : Number.decimal? text.toList with
      | none => simp [Constant.read, hread, hwhole, hreal, Constant.Stands]
      | some x => simp [Constant.read, hread, hwhole, hreal, Constant.Stands]
    · rw [if_neg hreal]
      simp [Constant.read, hwhole, hreal, Constant.Stands]

/-- **What is read of a text** is the constant that it stands for. -/
theorem readOr_stands (type : Value) (text : String) :
    (Constant.readOr text (PrimitiveType.ofType type)).1.Stands type text :=
  (readOr_cases type text).1

/-- A text is kept when it is misread. -/
theorem readOr_misread (type : Value) (text : String) :
    (Constant.readOr text (PrimitiveType.ofType type)).2 = isMisread type text :=
  (readOr_cases type text).2

end PipelineCompiler.Vertex
