import PipelineCompiler.Json.Writer
import PipelineCompiler.Number.Shortest

namespace PipelineCompiler.Number

/-!
# The characters of written numbers

A number in a document consists of letters, digits, points and signs, and of at least one of them.

* `isPlain` — these characters;
* `render_plain`, `render_ne_nil` — floats;
* `toString_plain`, `toString_ne_nil` — whole numbers.
-/

/-- The characters of which numbers and words consist. -/
def isPlain (c : Char) : Bool := c.isAlphanum || c == '.' || c == '+' || c == '-'

/-- A text that consists of such characters. -/
def PlainText (cs : List Char) : Prop := ∀ c ∈ cs, isPlain c = true

instance : DecidablePred PlainText :=
  fun cs => List.decidableBAll (fun c => isPlain c = true) cs

/-- Digits are among them. -/
theorem isPlain_of_isDigit {c : Char} (h : c.isDigit = true) : isPlain c = true := by
  simp [isPlain, Char.isAlphanum, h]

/-- A text in two parts. -/
theorem plainText_append {xs ys : List Char} :
    PlainText (xs ++ ys) ↔ PlainText xs ∧ PlainText ys := by
  simp only [PlainText, List.mem_append]
  exact ⟨fun h => ⟨fun c hc => h c (.inl hc), fun c hc => h c (.inr hc)⟩,
    fun h c hc => hc.elim (h.1 c) (h.2 c)⟩

/-! ### Whole numbers -/

/-- Decimal digits. -/
theorem toDigits_plain (n : Nat) : PlainText (Nat.toDigits 10 n) := fun _ hc =>
  isPlain_of_isDigit (Nat.isDigit_of_mem_toDigits (by decide) (by decide) hc)

/-- A natural number. -/
theorem repr_plain (n : Nat) : PlainText n.repr.toList := by
  rw [Nat.toList_repr]
  exact toDigits_plain n

/-- A whole number. -/
theorem toString_plain (i : Int) : PlainText (toString i).toList := by
  cases i with
  | ofNat n => exact repr_plain n
  | negSucc n =>
    show PlainText ("-" ++ (n + 1).repr).toList
    rw [String.toList_append, plainText_append]
    exact ⟨by decide, repr_plain (n + 1)⟩

/-- A natural number has a digit. -/
theorem repr_ne_nil (n : Nat) : n.repr.toList ≠ [] := by
  rw [Nat.toList_repr]
  exact List.ne_nil_of_length_pos Nat.length_toDigits_pos

/-- A whole number has a digit. -/
theorem toString_ne_nil (i : Int) : (toString i).toList ≠ [] := by
  cases i with
  | ofNat n => exact repr_ne_nil n
  | negSucc n =>
    show ("-" ++ (n + 1).repr).toList ≠ []
    simp

/-! ### Floats -/

/-- One character many times behind a text. -/
theorem toList_pushn (s : String) (c : Char) (n : Nat) :
    (s.pushn c n).toList = s.toList ++ List.replicate n c := by
  rw [String.pushn_eq_repeat_push]
  induction n with
  | zero => simp [Nat.repeat]
  | succ n ih =>
    rw [Nat.repeat, String.toList_push, ih, List.append_assoc, List.replicate_succ']

/-- Zeros in a row. -/
theorem zeros_plain (n : Nat) : PlainText ("".pushn '0' n).toList := by
  rw [toList_pushn]
  intro c hc
  rw [List.eq_of_mem_replicate hc]
  rfl

/-- The exponent. -/
theorem exponentText_plain (e : Int) : PlainText (exponentText e).toList := by
  have hdigits : PlainText (toString e.natAbs).toList := repr_plain e.natAbs
  unfold exponentText
  dsimp only
  rw [String.toList_append, plainText_append]
  constructor
  · split
    · decide
    · decide
  · split
    · rw [String.toList_append, plainText_append]
      exact ⟨by decide, hdigits⟩
    · exact hdigits

/-- An exponent is marked as one. -/
theorem exponentText_ne_nil (e : Int) : (exponentText e).toList ≠ [] := by
  unfold exponentText
  dsimp only
  split
  · simp
  · simp

/-- The digits of a number on a grid. -/
theorem ofGrid_plain (digits : Nat) (power : Int) :
    PlainText (Decimal.ofGrid digits power).digits := by
  intro c hc
  have hmem := (List.dropWhile_sublist _).subset (List.mem_reverse.mp hc)
  exact toDigits_plain digits c (List.mem_reverse.mp hmem)

/-- The digits of the number that the search ends with. -/
theorem search_plain (i : Interval) (magnitude : Int) (tries count : Nat) :
    PlainText (Decimal.search i magnitude tries count).digits := by
  induction tries generalizing count with
  | zero => exact ofGrid_plain _ _
  | succ tries ih =>
    unfold Decimal.search
    dsimp only
    split
    · exact ofGrid_plain _ _
    · exact ih (count + 1)

/-- A decimal with its point and exponent. -/
theorem decimal_plain (layout : Layout) {d : Decimal} (hd : PlainText d.digits) :
    PlainText (d.render layout).toList := by
  have htake : ∀ n, PlainText (d.digits.take n) := fun n c hc => hd c (List.mem_of_mem_take hc)
  have hdrop : ∀ n, PlainText (d.digits.drop n) := fun n c hc => hd c (List.mem_of_mem_drop hc)
  have hpoint : PlainText ".".toList := by decide
  have hpointZero : PlainText ".0".toList := by decide
  have hzeroPoint : PlainText "0.".toList := by decide
  have hnone : PlainText "".toList := by decide
  unfold Decimal.render
  dsimp only
  split
  -- The forms of a decimal: with the point before, behind or between the digits, or with an
  -- exponent.
  · split
    · simp only [String.toList_append, plainText_append, String.toList_ofList]
      exact ⟨⟨hzeroPoint, zeros_plain _⟩, hd⟩
    · split
      · simp only [String.toList_append, plainText_append, String.toList_ofList]
        exact ⟨⟨hd, zeros_plain _⟩, hpointZero⟩
      · simp only [String.toList_append, plainText_append, String.toList_ofList]
        exact ⟨⟨htake _, hpoint⟩, hdrop _⟩
  · simp only [String.toList_append, plainText_append, String.toList_ofList]
    refine ⟨⟨htake _, ?_⟩, exponentText_plain _⟩
    split
    · split
      · exact hpointZero
      · exact hnone
    · rw [String.toList_append, plainText_append]
      refine ⟨hpoint, ?_⟩
      rw [String.toList_ofList]
      exact hdrop 1

/-- A decimal has a point or an exponent. -/
theorem decimal_ne_nil (layout : Layout) (d : Decimal) : (d.render layout).toList ≠ [] := by
  unfold Decimal.render
  dsimp only
  split
  · split
    · simp
    · split
      · simp
      · simp
  · rw [String.toList_append]
    exact List.append_ne_nil_of_right_ne_nil _ (exponentText_ne_nil _)

/-- A float, where the spellings for what is no number are plain. -/
theorem render_plain {layout : Layout} (hnan : PlainText layout.nan.toList)
    (hinf : PlainText layout.infinity.toList)
    (hneg : PlainText layout.negativeInfinity.toList) (x : Float) :
    PlainText (render layout x).toList := by
  have htext : ∀ p : Parts, PlainText
      (if p.mantissa = 0 then "0.0" else (Decimal.shortest p).render layout).toList := by
    intro p
    split
    · decide
    · exact decimal_plain layout (search_plain _ _ _ _)
  -- No number, an infinity, or a number with or without a sign.
  unfold render
  dsimp only
  split
  · exact hnan
  · split
    · split
      · exact hneg
      · exact hinf
    · split
      · rw [String.toList_append, plainText_append]
        exact ⟨by decide, htext _⟩
      · exact htext _

/-- A float has a written form. -/
theorem render_ne_nil {layout : Layout} (hnan : layout.nan.toList ≠ [])
    (hinf : layout.infinity.toList ≠ []) (hneg : layout.negativeInfinity.toList ≠ [])
    (x : Float) : (render layout x).toList ≠ [] := by
  have htext : ∀ p : Parts,
      (if p.mantissa = 0 then "0.0" else (Decimal.shortest p).render layout).toList ≠ [] := by
    intro p
    split
    · simp
    · exact decimal_ne_nil layout _
  -- Again: no number, an infinity, or a number with or without a sign.
  unfold render
  dsimp only
  split
  · exact hnan
  · split
    · split
      · exact hneg
      · exact hinf
    · split
      · simp
      · exact htext _

end PipelineCompiler.Number
