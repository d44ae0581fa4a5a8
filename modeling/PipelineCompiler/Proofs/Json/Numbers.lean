import Mathlib.Data.List.TakeWhile
import PipelineCompiler.Json.Reader
import PipelineCompiler.Proofs.Number.Spelled

namespace PipelineCompiler.Json

/-!
# Reading numbers back

Whole numbers and floats are read back from their written forms, whatever follows them.

* `Ends` — what may follow a number;
* `number_pieces` — a decimal in pieces is read;
* `number_render`, `number_toString` — finite floats and whole numbers are read back.
-/

open Number

/-- What may follow a number: nothing that would go on with it. -/
def Ends (rest : List Char) : Prop :=
  ∀ c ∈ rest.head?, c.isDigit = false ∧ c ≠ '.' ∧ c ≠ 'e' ∧ c ≠ 'E'

/-! ### Digits -/

/-- The digits at the start of a text. -/
theorem takeWhile_digits {cs rest : List Char} (h : AllDigits cs)
    (hrest : ∀ c ∈ rest.head?, c.isDigit = false) :
    (cs ++ rest).takeWhile Char.isDigit = cs ∧ (cs ++ rest).dropWhile Char.isDigit = rest := by
  have hnone : rest.takeWhile Char.isDigit = [] ∧ rest.dropWhile Char.isDigit = rest := by
    cases rest with
    | nil => exact ⟨rfl, rfl⟩
    | cons c after =>
      have hc : ¬ c.isDigit = true := by
        rw [hrest c rfl]
        exact Bool.false_ne_true
      exact ⟨List.takeWhile_cons_of_neg hc, List.dropWhile_cons_of_neg hc⟩
  rw [List.takeWhile_append_of_pos h, List.dropWhile_append_of_pos h, hnone.1, hnone.2,
    List.append_nil]
  exact ⟨rfl, rfl⟩

/-- The digits before the point are read. -/
theorem wholeDigits?_append {cs rest : List Char} (h : AllDigits cs)
    (hfirst : cs = ['0'] ∨ ∃ c after, cs = c :: after ∧ c ≠ '0')
    (hrest : ∀ c ∈ rest.head?, c.isDigit = false) :
    wholeDigits? (cs ++ rest) = some (cs, rest) := by
  rcases hfirst with rfl | ⟨c, after, rfl, hne⟩
  · rfl
  · obtain ⟨hc, hafter⟩ := List.forall_mem_cons.mp h
    obtain ⟨htake, hdrop⟩ := takeWhile_digits hafter hrest
    rw [List.cons_append, wholeDigits?.eq_def]
    split
    next heq =>
      exact absurd (List.cons.inj heq).1 hne
    next heq =>
      obtain ⟨rfl, rfl⟩ := List.cons.inj heq
      rw [if_pos hc, htake, hdrop]
    next heq => cases heq

/-- The digits behind the point are read. -/
theorem fractionDigits_pointed (p : Pieces) (h : AllDigits p.fraction) {rest : List Char}
    (hrest : ∀ c ∈ rest.head?, c.isDigit = false ∧ c ≠ '.') :
    fractionDigits (p.pointed ++ rest) = (p.fraction, rest) := by
  rw [Pieces.pointed]
  cases hfraction : p.fraction with
  | nil =>
    rw [if_pos rfl, List.nil_append, fractionDigits.eq_def]
    split
    next c after =>
      exact absurd rfl (hrest '.' rfl).2
    next => rfl
  | cons c after =>
    rw [hfraction] at h
    obtain ⟨hc, hafter⟩ := List.forall_mem_cons.mp h
    obtain ⟨htake, hdrop⟩ := takeWhile_digits hafter fun d hd => (hrest d hd).1
    rw [if_neg (List.cons_ne_nil _ _), List.cons_append, List.cons_append, fractionDigits,
      if_pos hc, htake, hdrop]

/-! ### Exponents -/

/-- The digits of an exponent. -/
theorem exists_exponentDigits (e : ℤ) : ∃ ds, AllDigits ds ∧ ds ≠ [] ∧
    valueOf ds = e.natAbs ∧
    (exponentText e).toList = 'e' :: (if e < 0 then '-' else '+') :: ds := by
  have hsign : ∀ text : String, ((if e < 0 then "e-" else "e+") ++ text).toList =
      'e' :: (if e < 0 then '-' else '+') :: text.toList := by
    intro text
    split
    · exact String.toList_append
    · exact String.toList_append
  have htext : (toString e.natAbs).toList = Nat.toDigits 10 e.natAbs := Nat.toList_repr
  rw [exponentText, hsign]
  -- Exponents have two digits at least, so a single one gets a zero in front.
  by_cases hshort : (toString e.natAbs).length < 2
  · refine ⟨'0' :: Nat.toDigits 10 e.natAbs, ?_, List.cons_ne_nil _ _, ?_, ?_⟩
    · exact List.forall_mem_cons.mpr ⟨rfl, allDigits_toDigits _⟩
    · exact (valueOf_zeros_append 1 _).trans (valueOf_toDigits _)
    · rw [if_pos hshort, String.toList_append, htext]
      rfl
  · refine ⟨Nat.toDigits 10 e.natAbs, allDigits_toDigits _, Nat.toDigits_ne_nil,
      valueOf_toDigits _, ?_⟩
    rw [if_neg hshort, htext]

/-- An exponent is read. -/
theorem exponentPart_exponentText (e : ℤ) {rest : List Char}
    (hrest : ∀ c ∈ rest.head?, c.isDigit = false) :
    exponentPart ((exponentText e).toList ++ rest) = (some e, rest) := by
  obtain ⟨ds, hdigits, hne, hvalue, htext⟩ := exists_exponentDigits e
  obtain ⟨htake, hdrop⟩ := takeWhile_digits hdigits hrest
  -- The sign is always written, and is no digit.
  have hsign : Number.sign ((if e < 0 then '-' else '+') :: (ds ++ rest)) =
      (decide (e < 0), ds ++ rest) := by
    split
    next h => rw [Number.sign, decide_eq_true h]
    next h => rw [Number.sign, decide_eq_false h]
  have hempty : ds.isEmpty = false := by simpa using hne
  rw [htext, List.cons_append, List.cons_append, exponentPart, if_pos (by decide), hsign]
  dsimp only
  rw [htake, hdrop, hempty, if_neg Bool.false_ne_true, ofDigits_eq hdigits, hvalue]
  congr 2
  split
  next h =>
    have := of_decide_eq_true h
    omega
  next h =>
    have := of_decide_eq_false (Bool.not_eq_true _ ▸ h)
    omega

/-- The exponent of pieces, if there is one, is read. -/
theorem exponentPart_marked (p : Pieces) {rest : List Char} (hrest : Ends rest) :
    exponentPart (p.marked ++ rest) = (p.exponent, rest) := by
  rw [Pieces.marked]
  cases p.exponent with
  | some e => exact exponentPart_exponentText e fun c hc => (hrest c hc).1
  | none =>
    cases rest with
    | nil => rfl
    | cons c after =>
      obtain ⟨-, -, hlower, hupper⟩ := hrest c rfl
      have hmark : (c == 'e' || c == 'E') = false := by simp [hlower, hupper]
      rw [List.nil_append, exponentPart, hmark, if_neg Bool.false_ne_true]

/-! ### Numbers -/

/-- A mark of an exponent is no digit and no point. -/
theorem marked_ends (p : Pieces) {rest : List Char} (hrest : Ends rest) :
    ∀ c ∈ (p.marked ++ rest).head?, c.isDigit = false ∧ c ≠ '.' := by
  rw [Pieces.marked]
  cases p.exponent with
  | none => exact fun c hc => ⟨(hrest c hc).1, (hrest c hc).2.1⟩
  | some e =>
    obtain ⟨ds, -, -, -, htext⟩ := exists_exponentDigits e
    intro c hc
    dsimp only at hc
    rw [htext] at hc
    obtain rfl := Option.some.inj hc
    decide

/-- A point is no digit. -/
theorem pointed_ends (p : Pieces) {rest : List Char} (hrest : Ends rest) :
    ∀ c ∈ (p.pointed ++ (p.marked ++ rest)).head?, c.isDigit = false := by
  rw [Pieces.pointed]
  split
  · exact fun c hc => (marked_ends p hrest c hc).1
  · intro c hc
    obtain rfl := Option.some.inj hc
    rfl

/-- A number is read part by part. -/
theorem number_parts (negative : Bool) {cs whole fraction rest₁ rest₂ rest₃ : List Char}
    {power : Option ℤ} (hsign : cs.head? ≠ some '-')
    (hwhole : wholeDigits? cs = some (whole, rest₁))
    (hfraction : fractionDigits rest₁ = (fraction, rest₂))
    (hpower : exponentPart rest₂ = (power, rest₃)) :
    number (if negative then '-' :: cs else cs) =
      if fraction.isEmpty && power.isNone then
        if digitLimit < whole.length then .error (.numberTooLong whole.length)
        else .ok
          (.int (if negative then -(ofDigits 10 ((whole ++ fraction).filterMap baseDigit?) : ℤ)
          else ofDigits 10 ((whole ++ fraction).filterMap baseDigit?)), rest₃)
      else .ok (.float (scale negative (ofDigits 10 ((whole ++ fraction).filterMap baseDigit?))
        (power.getD 0 - fraction.length)), rest₃) := by
  -- The first character of the digits is no sign, so both branches read the same pieces.
  cases negative with
  | true => simp only [if_true, number, hwhole, hfraction, hpower]
  | false =>
    have hbare : ∀ rest, cs = '-' :: rest → False := by
      rintro rest rfl
      exact hsign rfl
    simp only [Bool.false_eq_true, if_false, number.eq_2 cs hbare, hwhole, hfraction, hpower]

/-- Digits begin with no sign. -/
theorem head_ne_sign {cs rest : List Char} (h : AllDigits cs) (hne : cs ≠ []) :
    (cs ++ rest).head? ≠ some '-' := by
  cases cs with
  | nil => exact absurd rfl hne
  | cons c after =>
    intro heq
    obtain rfl := Option.some.inj heq
    exact absurd (h '-' List.mem_cons_self) (by decide)

/-- Pieces with a sign, before something else. -/
theorem signed_append (negative : Bool) (p : Pieces) (rest : List Char) :
    (if negative then '-' :: p.chars else p.chars) ++ rest =
      if negative then '-' :: (p.whole ++ (p.pointed ++ (p.marked ++ rest)))
      else p.whole ++ (p.pointed ++ (p.marked ++ rest)) := by
  rw [Pieces.chars]
  split
  · simp
  · simp

/-- **A decimal in pieces is read.** -/
theorem number_pieces {p : Pieces} (h : p.Proper) (negative : Bool) {rest : List Char}
    (hrest : Ends rest) :
    number ((if negative then '-' :: p.chars else p.chars) ++ rest) =
      .ok (.float (scale negative (valueOf (p.whole ++ p.fraction)) p.power), rest) := by
  have hdecimal : (p.fraction.isEmpty && p.exponent.isNone) = false := by
    rcases h.decimal with hfraction | hexponent
    · simp [hfraction]
    · obtain ⟨e, he⟩ := Option.ne_none_iff_exists'.mp hexponent
      simp [he]
  rw [signed_append, number_parts negative (head_ne_sign h.whole h.whole_ne_nil)
    (wholeDigits?_append h.whole h.first (pointed_ends p hrest))
    (fractionDigits_pointed p h.fraction (marked_ends p hrest)) (exponentPart_marked p hrest),
    hdecimal, if_neg Bool.false_ne_true,
      ofDigits_eq (allDigits_append.mpr ⟨h.whole, h.fraction⟩)]
  rfl

/-- **A finite float is read back.** -/
theorem number_render {x : Float} (hnan : x.isNaN = false) (hinf : x.isInf = false)
    {rest : List Char} (hrest : Ends rest) :
    number ((Number.render layout x).toList ++ rest) = .ok (.float x, rest) := by
  obtain ⟨p, hproper, -, hchars, hscale⟩ := exists_pieces layout hnan hinf
  rw [hchars, number_pieces hproper _ hrest, hscale]

/-- The digits of a natural number begin with a zero only if that is all. -/
theorem toDigits_first (n : Nat) :
    Nat.toDigits 10 n = ['0'] ∨ ∃ c after, Nat.toDigits 10 n = c :: after ∧ c ≠ '0' := by
  rcases Nat.eq_zero_or_pos n with rfl | hpos
  · exact .inl rfl
  · exact .inr (leading_toDigits hpos).first

/-- A number that is not too long has few enough digits. -/
theorem length_toDigits_le {n : Nat} (hshort : isTooLong n = false) :
    (Nat.toDigits 10 n).length ≤ digitLimit := by
  have hlimit : 0 < digitLimit := by decide
  have hlt := not_le.mp (of_decide_eq_false hshort)
  -- the power is not computed
  generalize digitLimit = limit at hlimit hlt
  exact (Nat.length_toDigits_le_iff (by decide) hlimit).mpr hlt

/-- The digits of a natural number are read back. -/
theorem number_toDigits (negative : Bool) {n : Nat} (hshort : isTooLong n = false)
    {rest : List Char} (hrest : Ends rest) :
    number (if negative then '-' :: (Nat.toDigits 10 n ++ rest) else Nat.toDigits 10 n ++ rest) =
      .ok (.int (if negative then -n else n), rest) := by
  have hlength : ¬ digitLimit < (Nat.toDigits 10 n).length :=
    not_lt.mpr (length_toDigits_le hshort)
  have hdigits := allDigits_toDigits n
  -- What follows has neither a point nor a mark for an exponent.
  have hfraction : fractionDigits rest = ([], rest) := by
    have hpoint := fractionDigits_pointed ⟨[], [], none⟩ (fun _ hc => nomatch hc)
      fun c hc => ⟨(hrest c hc).1, (hrest c hc).2.1⟩
    exact hpoint
  have hexponent : exponentPart rest = (none, rest) :=
    exponentPart_marked ⟨[], [], none⟩ hrest
  have hparts := number_parts negative (head_ne_sign hdigits Nat.toDigits_ne_nil)
    (wholeDigits?_append hdigits (toDigits_first n) fun c hc => (hrest c hc).1) hfraction hexponent
  rw [List.append_nil, ofDigits_eq hdigits, valueOf_toDigits] at hparts
  rw [hparts, if_neg hlength]
  rfl

/-- A whole number is written with its sign and its digits. -/
theorem exists_sign (i : ℤ) (rest : List Char) :
    ∃ negative : Bool, i = (if negative then -(i.natAbs : ℤ) else i.natAbs) ∧
      (toString i).toList ++ rest =
        if negative then '-' :: (Nat.toDigits 10 i.natAbs ++ rest)
        else Nat.toDigits 10 i.natAbs ++ rest := by
  -- Nonnegative numbers are their digits, and negative ones have a sign in front.
  cases i with
  | ofNat n =>
    have htext : (toString (Int.ofNat n)).toList = Nat.toDigits 10 n := Nat.toList_repr
    refine ⟨false, rfl, ?_⟩
    rw [htext]
    rfl
  | negSucc n =>
    have htext : (toString (Int.negSucc n)).toList = '-' :: Nat.toDigits 10 (n + 1) := by
      show ("-" ++ (n + 1).repr).toList = _
      rw [String.toList_append, Nat.toList_repr]
      rfl
    refine ⟨true, rfl, ?_⟩
    rw [htext]
    rfl

/-- **A whole number is read back**, unless it is too long to be written. -/
theorem number_toString {i : Int} (hshort : isTooLong i = false) {rest : List Char}
    (hrest : Ends rest) : number ((toString i).toList ++ rest) = .ok (.int i, rest) := by
  obtain ⟨negative, hvalue, htext⟩ := exists_sign i rest
  have hmagnitude : isTooLong (i.natAbs : ℤ) = false := hshort
  rw [htext, number_toDigits negative hmagnitude hrest, ← hvalue]

end PipelineCompiler.Json
