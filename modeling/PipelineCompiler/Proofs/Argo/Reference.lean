import PipelineCompiler.Argo.Reference
import PipelineCompiler.Proofs.Naming.Fresh

namespace PipelineCompiler.Argo

/-!
# Reading references back

What runs a workflow sees texts only.  A text is a reference when it stands between double braces
and its parts between the points are those of one of the four forms; every other text is a
constant.

* `Reference.read` — what a text refers to;
* `Reference.IsReadable` — no part has a point in it, and a constant has no double braces;
* `read_text` — such a reference is read back from its text.
-/

/-! ### Reading -/

/-- What stands between double braces, if that is all there is. -/
def unbraced? (cs : List Char) : Option (List Char) := do
  let rest ← dropStart? "\x7b\x7b".toList cs
  let inner ← dropStart? "\x7d\x7d".toList rest.reverse
  pure inner.reverse

/-- What the parts of a reference refer to. -/
def Reference.ofParts? : List String → Option Reference
  | ["inputs", "parameters", name] => some (.parameter name)
  | ["inputs", "artifacts", name] => some (.artifact name)
  | ["tasks", task, "outputs", "parameters", name] => some (.taskParameter task name)
  | ["tasks", task, "outputs", "artifacts", name] => some (.taskArtifact task name)
  | _ => none

/-- What a text refers to; a text of no such form stands for itself. -/
def Reference.read (text : String) : Reference :=
  match unbraced? text.toList with
  | some inner =>
    (ofParts? ((inner.splitOn '.').map String.ofList)).getD (.constant text)
  | none => .constant text

/-! ### Readable references -/

/-- A text without double braces that open. -/
def HasNoBraces (text : String) : Prop := ¬ ['\x7b', '\x7b'] <:+: text.toList

instance (text : String) : Decidable (HasNoBraces text) := by
  unfold HasNoBraces
  infer_instance

/-- A text without points. -/
def HasNoPoint (text : String) : Prop := '.' ∉ text.toList

/-- References whose text can be told apart from all others. -/
def Reference.IsReadable : Reference → Prop
  | .constant text => HasNoBraces text
  | .parameter name | .artifact name => HasNoPoint name
  | .taskParameter task name | .taskArtifact task name => HasNoPoint task ∧ HasNoPoint name

/-- A beginning is taken off what begins with it. -/
theorem dropStart?_append (start rest : List Char) :
    dropStart? start (start ++ rest) = some rest := by
  induction start with
  | nil => rfl
  | cons c start ih => simpa [dropStart?] using ih

/-- What a beginning is taken off begins with it. -/
theorem eq_append_of_dropStart? {start cs rest : List Char} (h : dropStart? start cs = some rest) :
    cs = start ++ rest := by
  induction start generalizing cs with
  | nil =>
    simp only [dropStart?, Option.some.injEq] at h
    simpa using h
  | cons c start ih =>
    cases cs with
    | nil => cases h
    | cons d cs =>
      simp only [dropStart?] at h
      split at h
      next hcd =>
        rw [ih h, eq_of_beq hcd]
        rfl
      next => cases h

/-- A text between double braces is found there. -/
theorem unbraced?_braced (s : String) : unbraced? (braced s).toList = some s.toList := by
  have hchars : (braced s).toList = "\x7b\x7b".toList ++ (s.toList ++ "\x7d\x7d".toList) := by
    simp [braced]
  have hreverse : (s.toList ++ "\x7d\x7d".toList).reverse
      = "\x7d\x7d".toList ++ s.toList.reverse := by simp
  unfold unbraced?
  rw [hchars, dropStart?_append]
  simp only [Option.bind_eq_bind, Option.bind_some]
  rw [hreverse, dropStart?_append]
  simp

/-- A text without double braces is a constant. -/
theorem read_constant {text : String} (h : HasNoBraces text) :
    Reference.read text = .constant text := by
  unfold Reference.read
  split
  next inner hinner =>
    unfold unbraced? at hinner
    obtain ⟨rest, hrest, -⟩ := Option.bind_eq_some_iff.mp hinner
    have heq := eq_append_of_dropStart? hrest
    exact absurd ⟨[], rest, by rw [heq]; rfl⟩ h
  next => rfl

/-- The parts of a text between double braces are those between the points. -/
theorem read_braced (parts : List String) (hne : parts ≠ [])
    (h : ∀ part ∈ parts, HasNoPoint part) :
    Reference.read (braced (".".intercalate parts)) =
      (Reference.ofParts? parts).getD (.constant (braced (".".intercalate parts))) := by
  have hsplit : (".".intercalate parts).toList.splitOn '.' = parts.map String.toList := by
    rw [String.toList_intercalate]
    refine List.splitOn_intercalate '.' (fun cs hcs => ?_) (by simpa using hne)
    obtain ⟨part, hpart, rfl⟩ := List.mem_map.mp hcs
    exact h part hpart
  have hparts : (parts.map String.toList).map String.ofList = parts := by
    rw [List.map_map]
    simp [Function.comp_def]
  unfold Reference.read
  rw [unbraced?_braced]
  dsimp only
  rw [hsplit, hparts]

/-- The parts of a reference; a constant has none. -/
def Reference.parts : Reference → List String
  | .constant _ => []
  | .parameter name => ["inputs", "parameters", name]
  | .artifact name => ["inputs", "artifacts", name]
  | .taskParameter task name => ["tasks", task, "outputs", "parameters", name]
  | .taskArtifact task name => ["tasks", task, "outputs", "artifacts", name]

/-- The text of a reference is its parts between double braces, with points between them. -/
theorem text_eq_braced {r : Reference} (h : r.parts ≠ []) :
    r.text = braced (".".intercalate r.parts) := by
  cases r with
  | constant text => exact absurd rfl h
  | parameter | artifact => rfl
  | taskParameter | taskArtifact =>
    have hshown : ∀ s : String, toString s = s := fun _ => rfl
    rw [Reference.text, ← String.toList_inj]
    simp [braced, Reference.parts, hshown]

/-- The parts of a reference are read back. -/
theorem ofParts?_parts {r : Reference} (h : r.parts ≠ []) :
    Reference.ofParts? r.parts = some r := by
  cases r with
  | constant text => exact absurd rfl h
  | parameter | artifact | taskParameter | taskArtifact => rfl

/-- The parts of a readable reference have no points. -/
theorem parts_hasNoPoint {r : Reference} (h : r.IsReadable) :
    ∀ part ∈ r.parts, HasNoPoint part := by
  -- The words between names are fixed, and none has a point.
  have hwords : ∀ word ∈ ["inputs", "outputs", "tasks", "parameters", "artifacts"],
      HasNoPoint word := by
    unfold HasNoPoint
    decide
  intro part hpart
  cases r with
  | constant text => cases hpart
  | parameter name | artifact name =>
    simp only [Reference.parts, List.mem_cons, List.not_mem_nil, or_false] at hpart
    rcases hpart with rfl | rfl | rfl
    · exact hwords _ (by simp)
    · exact hwords _ (by simp)
    · exact h
  | taskParameter task name | taskArtifact task name =>
    simp only [Reference.parts, List.mem_cons, List.not_mem_nil, or_false] at hpart
    rcases hpart with rfl | rfl | rfl | rfl | rfl
    · exact hwords _ (by simp)
    · exact h.1
    · exact hwords _ (by simp)
    · exact hwords _ (by simp)
    · exact h.2

/-- **References are read back from their texts.** -/
theorem read_text {r : Reference} (h : r.IsReadable) : Reference.read r.text = r := by
  by_cases hparts : r.parts = []
  · cases r with
    | constant text => exact read_constant h
    | parameter | artifact | taskParameter | taskArtifact => cases hparts
  · rw [text_eq_braced hparts, read_braced r.parts hparts (parts_hasNoPoint h),
      ofParts?_parts hparts, Option.getD_some]

/-! ### Names without points -/

/-- The names of parameters and artifacts have no points. -/
theorem sanitizeIoName_hasNoPoint (s : String) : HasNoPoint (sanitizeIoName s) := by
  unfold HasNoPoint sanitizeIoName
  rw [String.toList_map]
  intro hmem
  obtain ⟨c, -, hc⟩ := List.mem_map.mp hmem
  split at hc
  next h =>
    rw [hc] at h
    exact absurd h (by decide)
  next => exact absurd hc (by decide)

/-- Legal names have no points. -/
theorem hasNoPoint_of_legal {name : String} (h : ∀ c ∈ name.toList, IsLegal c) :
    HasNoPoint name := by
  intro hmem
  rcases h '.' hmem with hletter | hdash
  · exact absurd hletter (by decide)
  · exact absurd hdash (by decide)

end PipelineCompiler.Argo
