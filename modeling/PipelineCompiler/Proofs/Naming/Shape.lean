import Mathlib.Data.List.DropRight
import PipelineCompiler.Proofs.Naming.Session

namespace PipelineCompiler

/-!
# Names that targets accept

A target accepts the names that consist of letters, digits and dashes, have no dash at either end
and are not too long.

* `IsName`, `NoDashRun` — the names of a target, and the texts without two dashes in a row;
* `sanitize_cons`, `sanitize_eq_self_of` — what sanitizing leaves, and what it leaves alone;
* `numbered_injective_of_dash`, `free_number_le` — a dash tells the number from the name, so that
  no more numbers are passed over than names are in use;
* `names_fit` — sanitized texts and the names of a whole session are accepted.
-/

/-! ### The names of a target -/

/-- A letter or digit; or several characters, letters and digits at both ends and dashes among those
    between. -/
def IsName (s : String) : Prop :=
  ∃ first, isNameLetter first = true ∧
    (s.toList = [first] ∨
      ∃ middle last, s.toList = first :: (middle ++ [last]) ∧ (∀ c ∈ middle, IsLegal c) ∧
        isNameLetter last = true)

/-- No dash follows a dash. -/
def NoDashRun (cs : List Char) : Prop := ¬ ['-', '-'] <:+: cs

/-- A dash is no letter. -/
theorem ne_dash_of_isNameLetter {c : Char} (h : isNameLetter c = true) : c ≠ '-' := by
  rintro rfl
  exact absurd h (by decide)

/-- A legal character that is no dash is a letter or digit. -/
theorem IsLegal.isNameLetter {c : Char} (h : IsLegal c) (hc : c ≠ '-') : isNameLetter c = true :=
  h.resolve_right hc

/-- The names of a target by their characters: all of them are legal, the first is no dash and the
    last is none. -/
theorem isName_iff {s : String} {first : Char} {rest : List Char} (h : s.toList = first :: rest) :
    IsName s ↔ (∀ c ∈ first :: rest, IsLegal c) ∧ isNameLetter first = true ∧
      trimDashes (first :: rest) = first :: rest := by
  -- To trim dashes does nothing exactly when the last character is none.
  have htrim : trimDashes (first :: rest) = first :: rest ↔
      (first :: rest).getLast (List.cons_ne_nil _ _) ≠ '-' := by
    have hself := List.rdropWhile_eq_self_iff (p := fun c : Char => c == '-') (l := first :: rest)
    simpa [trimDashes, List.rdropWhile] using hself
  rw [htrim]
  constructor
  · rintro ⟨first', hfirst, hs | ⟨middle, last, hs, hmiddle, hlast⟩⟩
    · rw [h] at hs
      obtain ⟨rfl, rfl⟩ := List.cons.inj hs
      exact ⟨by simpa using .inl hfirst, hfirst, by simpa using ne_dash_of_isNameLetter hfirst⟩
    · rw [h] at hs
      obtain ⟨rfl, rfl⟩ := List.cons.inj hs
      refine ⟨fun c hc => ?_, hfirst, by simpa using ne_dash_of_isNameLetter hlast⟩
      simp only [List.mem_cons, List.mem_append, List.not_mem_nil, or_false] at hc
      rcases hc with rfl | hc | rfl
      · exact .inl hfirst
      · exact hmiddle c hc
      · exact .inl hlast
  · rintro ⟨hlegal, hfirst, hlast⟩
    refine ⟨first, hfirst, ?_⟩
    -- The text has one character, or a first and a last one.
    rcases List.eq_nil_or_concat' rest with rfl | ⟨middle, last, rfl⟩
    · exact .inl h
    · refine .inr ⟨middle, last, h, fun c hc => hlegal c ?_, ?_⟩
      · exact List.mem_cons_of_mem _ (List.mem_append_left _ hc)
      · refine (hlegal last ?_).isNameLetter (by simpa using hlast)
        exact List.mem_cons_of_mem _ (List.mem_append_right _ List.mem_cons_self)

/-! ### Dashes -/

/-- The text up to the dashes at its end. -/
theorem trimDashes_isPrefix (cs : List Char) : trimDashes cs <+: cs := List.rdropWhile_prefix _ _

/-- No dash is left at the end. -/
theorem trimDashes_trimDashes (cs : List Char) : trimDashes (trimDashes cs) = trimDashes cs :=
  List.rdropWhile_idempotent _ _

/-- A first character that is no dash stays. -/
theorem trimDashes_cons {c : Char} (h : c ≠ '-') (cs : List Char) :
    trimDashes (c :: cs) = c :: trimDashes cs := by
  simp only [trimDashes, List.reverse_cons, List.dropWhile_append]
  split
  next hempty =>
    rw [List.isEmpty_iff] at hempty
    simp [hempty, h]
  next => simp

/-- Squeezing leaves the first character. -/
theorem head?_squeezeDashes (cs : List Char) : (squeezeDashes cs).head? = cs.head? := by
  fun_induction squeezeDashes cs with
  | case1 rest ih => simpa using ih
  | case2 c rest hne ih => rfl
  | case3 => rfl

/-- **Squeezing leaves no run of dashes.** -/
theorem squeezeDashes_noDashRun (cs : List Char) : NoDashRun (squeezeDashes cs) := by
  fun_induction squeezeDashes cs with
  | case1 rest ih => exact ih
  | case2 c rest hne ih =>
    intro hrun
    rcases List.infix_cons_iff.mp hrun with hstart | hwithin
    · -- the run would start with this character, and the next one would be a dash before squeezing
      obtain ⟨rfl, tail, htail⟩ := List.cons_prefix_cons.mp hstart
      have hhead := head?_squeezeDashes rest
      rw [← htail] at hhead
      obtain ⟨tail, rfl⟩ := List.head?_eq_some_iff.mp hhead.symm
      exact hne tail rfl rfl
    · exact ih hwithin
  | case3 => exact fun hrun => absurd (List.infix_nil.mp hrun) (by simp)

/-- Where there is no run of dashes, nothing is squeezed. -/
theorem squeezeDashes_eq_self {cs : List Char} (h : NoDashRun cs) : squeezeDashes cs = cs := by
  fun_induction squeezeDashes cs with
  | case1 rest ih => exact absurd ⟨[], rest, rfl⟩ h
  | case2 c rest hne ih =>
    rw [ih fun hwithin => h (hwithin.trans (List.suffix_cons c rest).isInfix)]
  | case3 => rfl

/-- A text within one without runs of dashes has none. -/
theorem NoDashRun.of_infix {cs ds : List Char} (h : NoDashRun ds) (hcs : cs <:+: ds) :
    NoDashRun cs := fun hrun => h (hrun.trans hcs)

/-- A letter before a text without runs of dashes. -/
theorem NoDashRun.cons {c : Char} {cs : List Char} (h : NoDashRun cs) (hc : c ≠ '-') :
    NoDashRun (c :: cs) := by
  intro hrun
  rcases List.infix_cons_iff.mp hrun with hstart | hwithin
  · exact hc (List.cons_prefix_cons.mp hstart).1.symm
  · exact h hwithin

/-! ### Sanitizing -/

/-- A character of a name is its own lower case. -/
theorem lowerLetter_of_isLegal {c : Char} (h : IsLegal c) : lowerLetter c = [c] := by
  rcases h with h | rfl
  -- Letters of names are lower case or digits, so none lies between the capital letters.
  · have hlower : c.toLower = c := by
      refine dif_neg fun hupper => ?_
      rcases Bool.or_eq_true_iff.mp h with hletter | hdigit
      · have hleast := of_decide_eq_true (Bool.and_eq_true_iff.mp hletter).1
        exact absurd (UInt32.le_trans hleast hupper.2) (by decide)
      · have hgreatest := of_decide_eq_true (Bool.and_eq_true_iff.mp hdigit).2
        exact absurd (UInt32.le_trans hupper.1 hgreatest) (by decide)
    have hkelvin : c ≠ '\u212a' := by
      rintro rfl
      exact absurd h (by decide)
    have hdotted : c ≠ '\u0130' := by
      rintro rfl
      exact absurd h (by decide)
    simp [lowerLetter, hlower, hkelvin, hdotted]
  · decide

/-- A text of such characters is its own lower case. -/
theorem lowerLetters_of_isLegal {s : String} (h : ∀ c ∈ s.toList, IsLegal c) :
    lowerLetters s = s.toList := by
  rw [lowerLetters, List.flatMap_congr fun c hc => lowerLetter_of_isLegal (h c hc)]
  exact List.flatMap_singleton' _

/-- What a target asks of the characters of a name, its length aside. -/
structure Accepted (cs : List Char) : Prop where
  legal : ∀ c ∈ cs, IsLegal c
  noRun : NoDashRun cs
  first : ∃ first rest, cs = first :: rest ∧ isNameLetter first = true

/-- An accepted text without a dash at its end is a name. -/
theorem Accepted.isName {s : String} (h : Accepted s.toList)
    (htrim : trimDashes s.toList = s.toList) : IsName s := by
  obtain ⟨first, rest, hs, hfirst⟩ := h.first
  rw [hs] at htrim
  exact (isName_iff hs).mpr ⟨hs ▸ h.legal, hfirst, htrim⟩

/-- A name without runs of dashes is accepted. -/
theorem IsName.accepted {s : String} (h : IsName s) (hrun : NoDashRun s.toList) :
    Accepted s.toList ∧ trimDashes s.toList = s.toList := by
  obtain ⟨first, rest, hs⟩ : ∃ first rest, s.toList = first :: rest := by
    obtain ⟨first, -, hs | ⟨middle, last, hs, -⟩⟩ := h
    · exact ⟨first, [], hs⟩
    · exact ⟨first, _, hs⟩
  obtain ⟨hlegal, hfirst, htrim⟩ := (isName_iff hs).mp h
  rw [hs] at hrun ⊢
  exact ⟨⟨hlegal, hrun, first, rest, rfl, hfirst⟩, htrim⟩

/-- What comes before the dashes at the end of an accepted text that was cut. -/
theorem Accepted.cut {cs : List Char} (h : Accepted cs) (limit : Int) (hlimit : 1 ≤ limit) :
    Accepted (trimDashes (cut limit cs)) ∧
      (trimDashes (cut limit cs)).length ≤ limit.toNat := by
  obtain ⟨first, rest, rfl, hfirst⟩ := h.first
  have hcut : PipelineCompiler.cut limit (first :: rest) = (first :: rest).take limit.toNat :=
    if_pos (by omega)
  -- What is cut and trimmed is the beginning of the text.
  have hstart : trimDashes (PipelineCompiler.cut limit (first :: rest)) <+: first :: rest :=
    (trimDashes_isPrefix _).trans (hcut ▸ List.take_prefix _ _)
  refine ⟨⟨fun c hc => h.legal c (hstart.subset hc),
    h.noRun.of_infix hstart.isInfix, ?_⟩, ?_⟩
  · obtain ⟨room, hroom⟩ : ∃ room, limit.toNat = room + 1 := ⟨limit.toNat - 1, by omega⟩
    rw [hcut, hroom, List.take_succ_cons, trimDashes_cons (ne_dash_of_isNameLetter hfirst)]
    exact ⟨first, _, rfl, hfirst⟩
  · refine (trimDashes_isPrefix _).length_le.trans ?_
    rw [hcut]
    exact List.length_take_le _ _

section Policy

variable {p : NamePolicy} {limit : Int}

/-- **What sanitizing leaves**: an accepted text without a dash at its end, within the length. -/
theorem sanitize_accepted (hp : p.maxLength = some limit) (hlimit : 1 ≤ limit) (s : String) :
    Accepted (p.sanitize s).toList ∧ trimDashes (p.sanitize s).toList = (p.sanitize s).toList ∧
      (p.sanitize s).toList.length ≤ limit.toNat := by
  -- What is cut and trimmed begins with a letter, as it is or behind `id`, so it is never empty.
  obtain ⟨started, hstarted, hsanitize⟩ : ∃ started, Accepted started ∧ p.sanitize s =
      if (trimDashes (cut limit started)).isEmpty then "id"
      else String.ofList (trimDashes (cut limit started)) := by
    have hlegal : ∀ c ∈ squeezeDashes
        ((lowerLetters s).map fun c => if isNameLetter c then c else '-'), IsLegal c := by
      intro c hc
      obtain ⟨d, -, rfl⟩ := List.mem_map.mp (mem_of_mem_squeezeDashes hc)
      split
      next h => exact .inl h
      next => exact .inr rfl
    unfold NamePolicy.sanitize
    dsimp only
    rw [hp]
    generalize hsqueezed : squeezeDashes _ = squeezed at hlegal
    -- Dashes are squeezed first, so there is no run of them.
    have hrun : NoDashRun squeezed := hsqueezed ▸ squeezeDashes_noDashRun _
    refine ⟨if squeezed.head?.any isNameLetter then squeezed else 'i' :: 'd' :: squeezed, ?_,
      rfl⟩
    split
    next hhead =>
      obtain ⟨first, rest, rfl⟩ : ∃ first rest, squeezed = first :: rest := by
        cases squeezed with
        | nil => simp at hhead
        | cons first rest => exact ⟨first, rest, rfl⟩
      exact ⟨hlegal, hrun, first, rest, rfl, by simpa using hhead⟩
    next =>
      refine ⟨fun c hc => ?_, (hrun.cons (by decide)).cons (by decide), 'i', _, rfl, by decide⟩
      rcases List.mem_append.mp (show c ∈ ['i', 'd'] ++ squeezed from hc) with hc | hc
      · exact idText_legal c hc
      · exact hlegal c hc
  obtain ⟨hcut, hlength⟩ := hstarted.cut limit hlimit
  obtain ⟨first, rest, hcons, -⟩ := hcut.first
  rw [hsanitize, if_neg (by simp [hcons]), String.toList_ofList]
  exact ⟨hcut, trimDashes_trimDashes _, hlength⟩

/-- **What sanitizing leaves alone**: accepted texts without a dash at their end, within the
    length. -/
theorem sanitize_eq_self_of (hp : p.maxLength = some limit) (hlimit : 1 ≤ limit) {s : String}
    (h : Accepted s.toList) (htrim : trimDashes s.toList = s.toList)
    (hlength : s.toList.length ≤ limit.toNat) : p.sanitize s = s := by
  obtain ⟨first, rest, hs, hfirst⟩ := h.first
  -- Each step of the sanitizer leaves such a text as it is.
  have hplain : (lowerLetters s).map (fun c => if isNameLetter c then c else '-') = s.toList := by
    rw [lowerLetters_of_isLegal h.legal]
    refine (List.map_congr_left fun c hc => ?_).trans (List.map_id _)
    rcases h.legal c hc with hc | rfl
    · exact if_pos hc
    · exact if_neg (by decide)
  have hhead : s.toList.head?.any isNameLetter = true := by simp [hs, hfirst]
  have hcut : cut limit s.toList = s.toList := by
    rw [cut, if_pos (by omega), List.take_of_length_le hlength]
  have hempty : ¬ s.toList.isEmpty = true := by simp [hs]
  unfold NamePolicy.sanitize
  simp only [hplain, squeezeDashes_eq_self h.noRun, hhead, if_true, hp, cutTo, hcut, htrim]
  rw [if_neg hempty, String.ofList_toList]

/-! ### Numbers behind names -/

/-- The last dash tells the number from the name. -/
theorem numbered_injective_of_dash (hdelimiter : p.delimiter = "-") (limit : Int) (base : String)
    {m n : Nat} (h : p.numbered limit base m = p.numbered limit base n) : m = n := by
  -- A number has no dash, so what stands behind the last dash is the number.
  have hdigits : ∀ k : Nat, '-' ∉ (Nat.toDigits 10 k).reverse := by
    intro k hk
    have hdigit := Nat.isDigit_of_mem_toDigits (by decide) (by decide) (List.mem_reverse.mp hk)
    exact absurd hdigit (by decide)
  have hchars := congrArg (fun s => s.toList.reverse.takeWhile (· != '-')) h
  have htake : ∀ k : Nat, (p.numbered limit base k).toList.reverse.takeWhile (· != '-') =
      (Nat.toDigits 10 k).reverse := by
    intro k
    have hall : ∀ c ∈ (Nat.toDigits 10 k).reverse, (c != '-') = true := fun c hc =>
      bne_iff_ne.mpr fun heq => hdigits k (heq ▸ hc)
    simp only [NamePolicy.numbered, hdelimiter, String.toList_append, String.toList_ofList,
      toList_toString_natCast, List.reverse_append, List.append_assoc,
      List.takeWhile_append_of_pos hall]
    simp
  simp only [htake, List.reverse_inj] at hchars
  rw [← Nat.ofDigitChars_ten_toDigits (n := m), hchars, Nat.ofDigitChars_ten_toDigits]

/-- **No more numbers are passed over than names are in use.** -/
theorem free_number_le (hdelimiter : p.delimiter = "-") (limit : Int) (base : String)
    (used : List String) {n : Nat}
    (h : ∀ m, 2 ≤ m → m < n → p.numbered limit base m ∈ used) :
    n ≤ used.length + 2 := by
  have hmaps : ∀ m ∈ Finset.Ico 2 n, p.numbered limit base (m : Nat) ∈ used.toFinset := by
    intro m hm
    obtain ⟨hlow, hhigh⟩ := Finset.mem_Ico.mp hm
    exact List.mem_toFinset.mpr (h m hlow hhigh)
  have hinj : Set.InjOn (fun m : Nat => p.numbered limit base m) (Finset.Ico 2 n : Set Nat) :=
    fun _ _ _ _ heq => numbered_injective_of_dash hdelimiter limit base heq
  have hcard := Finset.card_le_card_of_injOn _ hmaps hinj
  rw [Nat.card_Ico] at hcard
  have hused := List.toFinset_card_le used
  omega

/-- A number that is not greater has no more digits. -/
theorem length_toDigits_le_of_le {m n : Nat} (h : m ≤ n) :
    (Nat.toDigits 10 m).length ≤ (Nat.toDigits 10 n).length := by
  rw [Nat.length_toDigits_le_iff (by decide) Nat.length_toDigits_pos]
  exact Nat.lt_of_le_of_lt h
    ((Nat.length_toDigits_le_iff (by decide) Nat.length_toDigits_pos).mp (le_refl _))

/-- A name with a number is a name of the target, if the length leaves room for a character. -/
theorem numbered_isName (hdelimiter : p.delimiter = "-") {base : String}
    (hbase : Accepted base.toList) {n : Nat}
    (hroom : 1 + ((Nat.toDigits 10 n).length : Int) < limit) :
    IsName (p.numbered limit base n) ∧ ((p.numbered limit base n).length : Int) ≤ limit := by
  have hsuffix : ((p.delimiter ++ toString (n : Int)).length : Int) =
      1 + (Nat.toDigits 10 n).length := by
    rw [hdelimiter, ← String.length_toList, String.toList_append, List.length_append,
      toList_toString_natCast]
    simp
  obtain ⟨hcut, hlength⟩ := hbase.cut (limit - (1 + (Nat.toDigits 10 n).length)) (by omega)
  generalize hhead : trimDashes (cut (limit - (1 + (Nat.toDigits 10 n).length)) base.toList) = head
    at hcut hlength
  have hname : (p.numbered limit base n).toList = head ++ '-' :: Nat.toDigits 10 n := by
    rw [NamePolicy.numbered, hsuffix, hhead, hdelimiter]
    simp only [String.toList_append, String.toList_ofList, toList_toString_natCast]
    rfl
  obtain ⟨first, rest, rfl, hfirst⟩ := hcut.first
  have hdigit : ∀ c ∈ Nat.toDigits 10 n, isNameLetter c = true := fun c hc => by
    simp [isNameLetter, Nat.isDigit_of_mem_toDigits (by decide) (by decide) hc]
  refine ⟨⟨first, hfirst, .inr ?_⟩, ?_⟩
  · -- the last character is the last digit of the number
    rcases List.eq_nil_or_concat' (Nat.toDigits 10 n) with hnil | ⟨digits, last, hdigits⟩
    · exact absurd hnil Nat.toDigits_ne_nil
    · rw [hdigits] at hdigit hname
      refine ⟨rest ++ '-' :: digits, last, by rw [hname]; simp, fun c hc => ?_,
        hdigit last (List.mem_append_right _ List.mem_cons_self)⟩
      rcases List.mem_append.mp hc with hc | hc
      · exact hcut.legal c (List.mem_cons_of_mem _ hc)
      · rcases List.mem_cons.mp hc with rfl | hc
        · exact .inr rfl
        · exact .inl (hdigit c (List.mem_append_left _ hc))
  · rw [← String.length_toList, hname]
    simp only [List.length_append, List.length_cons] at hlength ⊢
    omega

/-- **New names are names of the target**, as long as there is room for the number that may have to
    stand behind them. -/
theorem freeName_isName (hdelimiter : p.delimiter = "-") (hp : p.maxLength = some limit)
    (hlimit : 1 ≤ limit) {used : List String} {stem name : String}
    (h : freeName p used stem = .ok name)
    (hroom : 1 + ((Nat.toDigits 10 (used.length + 2)).length : Int) < limit) :
    IsName name ∧ (name.length : Int) ≤ limit := by
  obtain ⟨hbase, htrim, hlength⟩ := sanitize_accepted hp hlimit stem
  unfold freeName at h
  dsimp only at h
  -- Without a number, the sanitized text is the name.  With one, it is short enough for the digits.
  split at h
  next =>
    rw [hp] at h
    obtain ⟨n, -, heq, -, hleast⟩ := firstFree_spec used
      (fun n => p.numbered limit (p.sanitize stem) n) (searchBound used.length) 2
      (exists_free_number p limit (p.sanitize stem) used)
    obtain rfl := Except.ok.inj h
    rw [heq]
    have hdigits := length_toDigits_le_of_le (free_number_le hdelimiter limit _ used hleast)
    exact numbered_isName hdelimiter hbase (by omega)
  next =>
    obtain rfl := Except.ok.inj h
    refine ⟨hbase.isName htrim, ?_⟩
    rw [← String.length_toList]
    omega

end Policy

/-! ### Names of a session -/

/-- A name that comes to the end of those in use was free for some stem. -/
theorem Session.freeName_of_names {s : Session} {i : Nat} {name : String}
    (h : s.names (i + 1) = s.names i ++ [name]) :
    ∃ stem, freeName s.policy (s.names i) stem = .ok name := by
  -- Only a request that adds a name changes them, and its name is a free one.
  have hne : s.names (i + 1) ≠ s.names i := fun heq => by simp [heq] at h
  cases hcall : s.calls[i]? with
  | none => exact absurd (congrArg NameAllocator.used (allocator_of_none hcall)) hne
  | some c =>
    have hsucc : s.names (i + 1) = ((s.allocator i).after c).used :=
      congrArg NameAllocator.used (allocator_succ hcall)
    rcases (s.allocator i).after_used c with hused | ⟨other, stem, -, hfree, hused⟩
    · exact absurd (hsucc.trans hused) hne
    · rw [(s.allocator_settings i).1] at hfree
      have hname : s.names i ++ [name] = s.names i ++ [other] := h ▸ hsucc.trans hused
      obtain rfl : name = other := by simpa using hname
      exact ⟨stem, hfree⟩

/-- **Names fit.**  Sanitizing makes names of the target out of all texts and leaves exactly these
    names alone; and a session gives names of the target as long as there is room for numbers. -/
theorem names_fit (limit : Int) (hlimit : 1 ≤ limit) :
    let p : NamePolicy := { maxLength := some limit, delimiter := "-" }
    (∀ s, IsName (p.sanitize s) ∧ NoDashRun (p.sanitize s).toList ∧
      ((p.sanitize s).length : Int) ≤ limit) ∧
    (∀ s, p.sanitize s = s ↔ IsName s ∧ NoDashRun s.toList ∧ (s.length : Int) ≤ limit) ∧
    (∀ s, p.sanitize (p.sanitize s) = p.sanitize s) ∧
    ∀ (s : Session) (i : Nat) (name : String), s.policy = p →
      s.names (i + 1) = s.names i ++ [name] →
      1 + ((Nat.toDigits 10 ((s.names i).length + 2)).length : Int) < limit →
      IsName name ∧ (name.length : Int) ≤ limit := by
  intro p
  have hfits : ∀ s, IsName (p.sanitize s) ∧ NoDashRun (p.sanitize s).toList ∧
      ((p.sanitize s).length : Int) ≤ limit := by
    intro s
    obtain ⟨haccepted, htrim, hlength⟩ := sanitize_accepted (p := p) rfl hlimit s
    refine ⟨haccepted.isName htrim, haccepted.noRun, ?_⟩
    rw [← String.length_toList]
    omega
  have hself : ∀ s, IsName s ∧ NoDashRun s.toList ∧ (s.length : Int) ≤ limit →
      p.sanitize s = s := by
    rintro s ⟨hname, hrun, hlength⟩
    obtain ⟨haccepted, htrim⟩ := hname.accepted hrun
    rw [← String.length_toList] at hlength
    exact sanitize_eq_self_of rfl hlimit haccepted htrim (by omega)
  -- What is sanitized fits, and what fits is left alone, so to sanitize twice is to do so once.
  refine ⟨hfits, fun s => ⟨fun h => h ▸ hfits s, hself s⟩, fun s => hself _ (hfits s), ?_⟩
  rintro s i name hpolicy hnames hroom
  obtain ⟨stem, hfree⟩ := Session.freeName_of_names hnames
  rw [hpolicy] at hfree
  exact freeName_isName rfl rfl hlimit hfree hroom

/-- The third name of a session that starts with one stem. -/
theorem names_fit_numbered :
    Session.sampleSession.names 5 = Session.sampleSession.names 4 ++ ["trai-3"] ∧
      IsName "trai-3" ∧ ("trai-3".length : Int) ≤ 6 := by
  have hnames : Session.sampleSession.names 5 = Session.sampleSession.names 4 ++ ["trai-3"] := by
    decide +kernel
  have hroom : 1 + ((Nat.toDigits 10 ((Session.sampleSession.names 4).length + 2)).length : Int)
      < 6 := by
    decide +kernel
  exact ⟨hnames,
    (names_fit 6 (by decide)).2.2.2 Session.sampleSession 4 "trai-3" rfl hnames hroom⟩

end PipelineCompiler
