import Mathlib.Data.Finset.Card
import Mathlib.Data.Nat.Log
import Mathlib.Order.Interval.Finset.Nat
import PipelineCompiler.Naming.Allocator

namespace PipelineCompiler

/-!
# New names

The search for a name ends with one that is not used, whatever the policy and whatever is used.

* `numbered_injective` — names with equally long numbers are different;
* `exists_free_number` — there are more numbers of one length within the search bound than names
  in use, so that one of them is free;
* `freeName_fresh` — a new name is none of those in use;
* `freeName_legal` — it consists of lower-case letters, digits and dashes;
* `freeName_ne_empty` — there is at least one of these.
-/

/-! ### Numbers behind names -/

/-- The written form of a number is its decimal digits. -/
theorem toList_toString_natCast (n : Nat) : (toString (n : Int)).toList = Nat.toDigits 10 n :=
  Nat.toList_repr

/-- Numbers of one length leave a name the same room, so different numbers make different
    names. -/
theorem numbered_injective (p : NamePolicy) (limit : Int) (base : String) {m n : Nat}
    (hlen : (Nat.toDigits 10 m).length = (Nat.toDigits 10 n).length)
    (h : p.numbered limit base m = p.numbered limit base n) : m = n := by
  have hchars := congrArg String.toList h
  simp only [NamePolicy.numbered, String.toList_append, String.toList_ofList,
    toList_toString_natCast, ← String.length_toList, List.length_append, hlen] at hchars
  have hdigits : Nat.toDigits 10 m = Nat.toDigits 10 n :=
    List.append_cancel_left (List.append_cancel_left hchars)
  rw [← Nat.ofDigitChars_ten_toDigits (n := m), hdigits, Nat.ofDigitChars_ten_toDigits]

/-- The numbers with `e + 1` digits. -/
theorem length_toDigits_of_mem_Ico {e n : Nat} (he : 0 < e)
    (h : n ∈ Finset.Ico (10 ^ e) (10 ^ (e + 1))) : (Nat.toDigits 10 n).length = e + 1 := by
  rw [Finset.mem_Ico] at h
  have hle : (Nat.toDigits 10 n).length ≤ e + 1 :=
    (Nat.length_toDigits_le_iff (by decide) (by omega)).mpr h.2
  have hgt : ¬ (Nat.toDigits 10 n).length ≤ e := fun hshort =>
    absurd ((Nat.length_toDigits_le_iff (by decide) he).mp hshort) (by omega)
  omega

/-- **A number is free.**  Among the numbers that are tried there is one whose name is not used:
    those with one digit more than the count of used names are too many for it. -/
theorem exists_free_number (p : NamePolicy) (limit : Int) (base : String) (used : List String) :
    ∃ n : Nat, 2 ≤ n ∧ n ≤ 2 + searchBound used.length ∧
      p.numbered limit base n ∉ used := by
  by_contra hall
  push Not at hall
  obtain ⟨e, he⟩ : ∃ e, e = Nat.log 10 used.length + 1 := ⟨_, rfl⟩
  have hpos : 0 < e := by omega
  have hlow : used.length < 10 ^ e := he ▸ Nat.lt_pow_succ_log_self (by decide) _
  have hhigh : 10 ^ (e + 1) ≤ searchBound used.length := by
    rw [searchBound, he, pow_succ, pow_succ]
    rcases Nat.eq_zero_or_pos used.length with h0 | hused
    · simp [h0]
    · have := Nat.pow_log_le_self 10 (Nat.pos_iff_ne_zero.mp hused)
      omega
  have hten : 10 ≤ 10 ^ e := Nat.le_self_pow (Nat.pos_iff_ne_zero.mp hpos) 10
  -- the names with numbers of `e + 1` digits are all in use, and no two of them are the same
  have hmaps : ∀ n ∈ Finset.Ico (10 ^ e) (10 ^ (e + 1)),
      p.numbered limit base (n : Nat) ∈ used.toFinset := by
    intro n hn
    have hn' := Finset.mem_Ico.mp hn
    exact List.mem_toFinset.mpr (hall n (by omega) (by omega))
  have hinj : Set.InjOn (fun n : Nat => p.numbered limit base n)
      (Finset.Ico (10 ^ e) (10 ^ (e + 1)) : Set Nat) := by
    intro m hm n hn h
    refine numbered_injective p limit base ?_ h
    rw [length_toDigits_of_mem_Ico hpos (Finset.mem_coe.mp hm),
      length_toDigits_of_mem_Ico hpos (Finset.mem_coe.mp hn)]
  have hcard := Finset.card_le_card_of_injOn _ hmaps hinj
  rw [Nat.card_Ico, pow_succ] at hcard
  have hused := List.toFinset_card_le used
  omega

/-- The search finds the first free number, if one of those that are tried is free. -/
theorem firstFree_spec (used : List String) (numbered : Nat → String) (fuel index : Nat)
    (h : ∃ n, index ≤ n ∧ n ≤ index + fuel ∧ numbered n ∉ used) :
    ∃ n, index ≤ n ∧ firstFree used numbered fuel index = numbered n ∧
      numbered n ∉ used ∧
      ∀ m, index ≤ m → m < n → numbered m ∈ used := by
  induction fuel generalizing index with
  | zero =>
    obtain ⟨n, hlow, hhigh, hfree⟩ := h
    obtain rfl : n = index := by omega
    exact ⟨n, le_refl _, rfl, hfree, fun m hm hlt => absurd hm (by omega)⟩
  | succ fuel ih =>
    by_cases hused : numbered index ∈ used
    · obtain ⟨n, hlow, hhigh, hfree⟩ := h
      -- the free number is not the first one, so that it is found among the rest
      have hne : n ≠ index := by
        rintro rfl
        exact hfree hused
      obtain ⟨k, hk, heq, hkfree, hleast⟩ := ih (index + 1) ⟨n, by omega, by omega, hfree⟩
      refine ⟨k, by omega, ?_, hkfree, fun m hm hlt => ?_⟩
      · rw [firstFree, if_pos hused, heq]
      · rcases Nat.eq_or_lt_of_le hm with rfl | hm
        · exact hused
        · exact hleast m hm hlt
    · refine ⟨index, le_refl _, ?_, hused, fun m hm hlt => absurd hm (by omega)⟩
      rw [firstFree, if_neg hused]

/-- **New names are new.** -/
theorem freeName_fresh {p : NamePolicy} {used : List String} {stem name : String}
    (h : freeName p used stem = .ok name) : name ∉ used := by
  unfold freeName at h
  dsimp only at h
  split at h
  next hbase =>
    split at h
    next limit _ =>
      obtain ⟨n, -, heq, hfree, -⟩ := firstFree_spec used
        (fun n => p.numbered limit (p.sanitize stem) n) (searchBound used.length) 2
        (exists_free_number p limit (p.sanitize stem) used)
      rw [← Except.ok.inj h, heq]
      exact hfree
    next => cases h
  next hbase =>
    rw [← Except.ok.inj h]
    exact hbase

/-! ### The characters of names -/

/-- The characters of which the names of a target consist. -/
def IsLegal (c : Char) : Prop := isNameLetter c = true ∨ c = '-'

/-- The part of a text within a limit. -/
theorem mem_of_mem_cut {limit : Int} {cs : List Char} {c : Char} (h : c ∈ cut limit cs) :
    c ∈ cs := by
  unfold cut at h
  split at h
  · exact List.mem_of_mem_take h
  · exact List.mem_of_mem_take h

/-- A text without the dashes at its end. -/
theorem mem_of_mem_trimDashes {cs : List Char} {c : Char} (h : c ∈ trimDashes cs) : c ∈ cs := by
  rw [trimDashes, List.mem_reverse] at h
  exact List.mem_reverse.mp ((List.dropWhile_sublist _).subset h)

/-- Runs of dashes that became one dash. -/
theorem mem_of_mem_squeezeDashes {cs : List Char} {c : Char} (h : c ∈ squeezeDashes cs) :
    c ∈ cs := by
  fun_induction squeezeDashes cs with
  | case1 rest ih => exact List.mem_cons_of_mem _ (ih h)
  | case2 d rest hne ih =>
    rcases List.mem_cons.mp h with rfl | h
    · exact List.mem_cons_self
    · exact List.mem_cons_of_mem _ (ih h)
  | case3 => exact h

/-- The stand-in for a name without characters. -/
theorem idText_legal : ∀ c ∈ ['i', 'd'], IsLegal c := by
  intro c hc
  simp only [List.mem_cons, List.not_mem_nil, or_false] at hc
  rcases hc with rfl | rfl
  · exact .inl (by decide)
  · exact .inl (by decide)

/-- The end of sanitizing: the name is cut to its length, and it is not empty. -/
theorem finished_legal {cs : List Char} (h : ∀ c ∈ cs, IsLegal c) (limit : Option Int) :
    ∀ c ∈ (if (trimDashes (cutTo limit cs)).isEmpty then "id"
      else String.ofList (trimDashes (cutTo limit cs))).toList, IsLegal c := by
  intro c hc
  split at hc
  next => exact idText_legal c hc
  next =>
    rw [String.toList_ofList] at hc
    have hcut := mem_of_mem_trimDashes hc
    cases limit with
    | none => exact h c hcut
    | some limit => exact h c (mem_of_mem_cut hcut)

/-- The characters of a sanitized name. -/
theorem sanitize_legal (p : NamePolicy) (s : String) :
    ∀ c ∈ (p.sanitize s).toList, IsLegal c := by
  have hplain : ∀ c ∈ squeezeDashes
      ((lowerLetters s).map fun c => if isNameLetter c then c else '-'), IsLegal c := by
    intro c hc
    obtain ⟨d, -, rfl⟩ := List.mem_map.mp (mem_of_mem_squeezeDashes hc)
    split
    next h => exact .inl h
    next => exact .inr rfl
  refine finished_legal (fun c hc => ?_) p.maxLength
  split at hc
  next => exact hplain c hc
  next =>
    rcases List.mem_append.mp (show c ∈ ['i', 'd'] ++ squeezeDashes _ from hc) with hc | hc
    · exact idText_legal c hc
    · exact hplain c hc

/-- The characters of a name with a number. -/
theorem numbered_legal {p : NamePolicy} (hp : ∀ c ∈ p.delimiter.toList, IsLegal c) (limit : Int)
    {base : String} (hbase : ∀ c ∈ base.toList, IsLegal c) (n : Nat) :
    ∀ c ∈ (p.numbered limit base n).toList, IsLegal c := by
  intro c hc
  simp only [NamePolicy.numbered, String.toList_append, String.toList_ofList,
    toList_toString_natCast, List.mem_append] at hc
  rcases hc with hc | hc | hc
  · exact hbase c (mem_of_mem_cut (mem_of_mem_trimDashes hc))
  · exact hp c hc
  · have hdigit := Nat.isDigit_of_mem_toDigits (by decide) (by decide) hc
    exact .inl (by simp [isNameLetter, hdigit])

/-- **New names are legal**, where the text before a number is. -/
theorem freeName_legal {p : NamePolicy} (hp : ∀ c ∈ p.delimiter.toList, IsLegal c)
    {used : List String} {stem name : String} (h : freeName p used stem = .ok name) :
    ∀ c ∈ name.toList, IsLegal c := by
  unfold freeName at h
  dsimp only at h
  split at h
  -- The sanitized text is taken, so a number is put behind it; a policy without a limit has no
  -- number.
  next hbase =>
    split at h
    next limit _ =>
      obtain ⟨n, -, heq, -, -⟩ := firstFree_spec used
        (fun n => p.numbered limit (p.sanitize stem) n) (searchBound used.length) 2
        (exists_free_number p limit (p.sanitize stem) used)
      rw [← Except.ok.inj h, heq]
      exact numbered_legal hp limit (sanitize_legal p stem) n
    next => cases h
  next hbase =>
    rw [← Except.ok.inj h]
    exact sanitize_legal p stem

/-! ### Names are not empty -/

/-- A sanitized name is not empty. -/
theorem sanitize_ne_empty (p : NamePolicy) (s : String) : p.sanitize s ≠ "" := by
  unfold NamePolicy.sanitize
  dsimp only
  generalize trimDashes (cutTo p.maxLength _) = name
  split
  next => decide
  next hname =>
    intro h
    obtain rfl : name = [] := by simpa using congrArg String.toList h
    exact hname rfl

/-- A name with a number is not empty. -/
theorem numbered_ne_empty (p : NamePolicy) (limit : Int) (base : String) (n : Nat) :
    p.numbered limit base n ≠ "" := by
  intro h
  have hchars := congrArg String.toList h
  simp only [NamePolicy.numbered, String.toList_append, String.toList_ofList,
    toList_toString_natCast, String.toList_empty, List.append_eq_nil_iff] at hchars
  exact Nat.toDigits_ne_nil hchars.2.2

/-- **New names are not empty.** -/
theorem freeName_ne_empty {p : NamePolicy} {used : List String} {stem name : String}
    (h : freeName p used stem = .ok name) : name ≠ "" := by
  unfold freeName at h
  dsimp only at h
  split at h
  next =>
    split at h
    next limit _ =>
      obtain ⟨n, -, heq, -, -⟩ := firstFree_spec used
        (fun n => p.numbered limit (p.sanitize stem) n) (searchBound used.length) 2
        (exists_free_number p limit (p.sanitize stem) used)
      rw [← Except.ok.inj h, heq]
      exact numbered_ne_empty p limit _ n
    next => cases h
  next =>
    rw [← Except.ok.inj h]
    exact sanitize_ne_empty p stem

end PipelineCompiler
