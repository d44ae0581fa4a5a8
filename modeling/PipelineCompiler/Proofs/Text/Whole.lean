import PipelineCompiler.Argo.Reference
import PipelineCompiler.Failure.Basic
import PipelineCompiler.Json.Writer
import PipelineCompiler.Proofs.Graph.Order
import PipelineCompiler.Proofs.Json.Quoted
import PipelineCompiler.Proofs.Naming.Fresh

namespace PipelineCompiler

/-!
# Texts with a form in UTF-8

A text without halves of surrogate pairs has a form in UTF-8.  Whatever documents make of such
texts has one as well.

* `Text.Whole`, `wholeText_eq_ok` — the texts without halves;
* `whole_append`, `whole_join`, `whole_intercalate` — texts that are put together;
* `whole_of_legal`, `whole_sanitizeIoName` — names are whole, whatever they are made from;
* `whole_quote` — so is the quoted form of a whole text;
* `whole_referencedTasks` — and so are the tasks that whole texts refer to.
-/

namespace Text

/-- A text without halves of surrogate pairs. -/
def Whole (s : String) : Prop := ∀ c ∈ s.toList, isHalf (codeOf c) = false

/-- Texts without halves are those that are recognized as such. -/
theorem whole_iff {s : String} : Whole s ↔ isWhole s = true := (isWhole_iff s).symm

instance : DecidablePred Whole := fun _ => decidable_of_iff _ whole_iff.symm

end Text

open Text

/-- A whole text has a form in UTF-8. -/
theorem wholeText_eq_ok {s : String} (h : Whole s) : wholeText s = .ok s := by
  rw [wholeText, if_pos (whole_iff.mp h)]

/-! ### Texts that are put together -/

/-- A text whose characters are those of a whole text. -/
theorem Text.Whole.of_subset {s t : String} (h : Whole s)
    (hsub : ∀ c ∈ t.toList, c ∈ s.toList) :
    Whole t := fun c hc => h c (hsub c hc)

/-- Characters of ASCII hold no halves. -/
theorem not_isHalf_of_ascii {c : Char} (h : c.toNat < 128) : isHalf (codeOf c) = false := by
  cases hhalf : isHalf (codeOf c) with
  | false => rfl
  | true =>
    have hrange := range_of_isHalf hhalf
    omega

/-- A text of ASCII.  The characters are checked one by one, as there are too many of them to check
    them all. -/
theorem whole_of_ascii {s : String} (h : s.toList.all (·.toNat < 128) = true) : Whole s :=
  fun c hc => not_isHalf_of_ascii (of_decide_eq_true (List.all_eq_true.mp h c hc))

/-- A text in two parts. -/
theorem whole_append {s t : String} : Whole (s ++ t) ↔ Whole s ∧ Whole t := by
  simp only [Whole, String.toList_append, List.mem_append]
  exact ⟨fun h => ⟨fun c hc => h c (.inl hc), fun c hc => h c (.inr hc)⟩,
    fun h c hc => hc.elim (h.1 c) (h.2 c)⟩

/-- Texts one behind another. -/
theorem whole_join {texts : List String} (h : ∀ t ∈ texts, Whole t) :
    Whole (String.join texts) := by
  intro c hc
  rw [String.toList_join] at hc
  obtain ⟨t, ht, hc⟩ := List.mem_flatMap.mp hc
  exact h t ht c hc

/-- Texts with a separator between them. -/
theorem whole_intercalate {separator : String} (hseparator : Whole separator) {texts : List String}
    (h : ∀ t ∈ texts, Whole t) : Whole (separator.intercalate texts) := by
  induction texts with
  | nil => exact fun _ hc => nomatch hc
  | cons t rest ih =>
    have hrest := ih fun t ht => h t (List.mem_cons_of_mem _ ht)
    cases rest with
    | nil =>
      rw [String.intercalate_singleton]
      exact h t List.mem_cons_self
    | cons u rest =>
      rw [String.intercalate_cons_cons]
      exact whole_append.mpr ⟨whole_append.mpr ⟨h t List.mem_cons_self, hseparator⟩, hrest⟩

/-! ### Names -/

section Letters

variable {c : Char}

/-- Lower case letters are of ASCII. -/
theorem ascii_of_isLower (h : c.isLower = true) : c.toNat < 128 :=
  Nat.lt_of_le_of_lt (UInt32.le_iff_toNat_le.mp (of_decide_eq_true (Bool.and_eq_true_iff.mp h).2))
    (by decide)

/-- Upper case letters are of ASCII. -/
theorem ascii_of_isUpper (h : c.isUpper = true) : c.toNat < 128 :=
  Nat.lt_of_le_of_lt (UInt32.le_iff_toNat_le.mp (of_decide_eq_true h).2) (by decide)

/-- Digits are of ASCII. -/
theorem ascii_of_isDigit (h : c.isDigit = true) : c.toNat < 128 :=
  Nat.lt_of_le_of_lt (UInt32.le_iff_toNat_le.mp (of_decide_eq_true (Bool.and_eq_true_iff.mp h).2))
    (by decide)

/-- Letters and digits are of ASCII. -/
theorem ascii_of_isAlphanum (h : c.isAlphanum = true) : c.toNat < 128 := by
  rcases Bool.or_eq_true_iff.mp h with halpha | hdigit
  · rcases Bool.or_eq_true_iff.mp halpha with hupper | hlower
    · exact ascii_of_isUpper hupper
    · exact ascii_of_isLower hlower
  · exact ascii_of_isDigit hdigit

end Letters

/-- A legal name is whole. -/
theorem whole_of_legal {name : String} (h : ∀ c ∈ name.toList, IsLegal c) : Whole name := by
  intro c hc
  refine not_isHalf_of_ascii ?_
  rcases h c hc with hletter | rfl
  · rcases Bool.or_eq_true_iff.mp hletter with hlower | hdigit
    · exact ascii_of_isLower hlower
    · exact ascii_of_isDigit hdigit
  · decide

/-- The name of a parameter or artifact is whole. -/
theorem whole_sanitizeIoName (s : String) : Whole (sanitizeIoName s) := by
  intro c hc
  refine not_isHalf_of_ascii ?_
  rw [sanitizeIoName, String.toList_map] at hc
  obtain ⟨d, -, rfl⟩ := List.mem_map.mp hc
  split
  next h =>
    simp only [Bool.or_eq_true, beq_iff_eq] at h
    rcases h with (h | rfl) | rfl
    · exact ascii_of_isAlphanum h
    · decide
    · decide
  next => decide

/-! ### Quoted texts -/

/-- The escape of a control character is of ASCII. -/
theorem ascii_controlEscape :
    ∀ n < 0x20, ("\\u" ++ hex 4 n).toList.all (·.toNat < 128) = true := by
  decide

/-- The written form of a character that holds no half. -/
theorem whole_quoteChar {c : Char} (h : isHalf (codeOf c) = false) : Whole (Json.quoteChar c) := by
  unfold Json.quoteChar
  -- the escapes that have a letter come first
  iterate 7
    split
    · exact whole_of_ascii (by decide)
  split
  next hcontrol => exact whole_of_ascii (ascii_controlEscape _ hcontrol)
  next =>
    intro d hd
    have htext : c.toString.toList = [c] := String.toList_singleton c
    rw [htext, List.mem_singleton] at hd
    exact hd ▸ h

/-- **The quoted form of a whole text is whole.** -/
theorem whole_quote {s : String} (h : Whole s) : Whole (Json.quote s) := by
  have hmark : Whole "\"" := whole_of_ascii (by decide)
  rw [Json.quote]
  refine whole_append.mpr ⟨whole_append.mpr ⟨hmark, whole_join fun t ht => ?_⟩, hmark⟩
  obtain ⟨c, hc, rfl⟩ := List.mem_map.mp ht
  exact whole_quoteChar (h c hc)

/-! ### References in texts -/

/-- A rest of a list is part of it. -/
theorem mem_of_dropStart? {α : Type} [BEq α] {start cs rest : List α}
    (h : Argo.dropStart? start cs = some rest) {c : α} (hc : c ∈ rest) : c ∈ cs := by
  induction start generalizing cs with
  | nil =>
    obtain rfl := Option.some.inj h
    exact hc
  | cons a start ih =>
    cases cs with
    | nil => cases h
    | cons b cs =>
      rw [Argo.dropStart?] at h
      split at h
      · exact List.mem_cons_of_mem _ (ih h)
      · cases h

/-- The tasks that a text refers to are part of it. -/
theorem mem_of_scanTasks {cs : List Char} {skip : Nat} {task : String}
    (h : task ∈ Argo.scanTasks skip cs) : ∀ c ∈ task.toList, c ∈ cs := by
  -- By induction on the text; a name that is found stands in what is left of it.
  induction cs generalizing skip with
  | nil => cases h
  | cons first rest ih =>
    cases skip with
    | succ skip => exact fun c hc => List.mem_cons_of_mem _ (ih h c hc)
    | zero =>
      rw [Argo.scanTasks] at h
      split at h
      next name hname =>
        rcases List.mem_cons.mp h with rfl | h
        · intro c hc
          rw [String.toList_ofList] at hc
          rw [Argo.leadingTask?, Option.bind_eq_bind, Option.bind_eq_some_iff] at hname
          obtain ⟨opened, hopened, hname⟩ := hname
          obtain ⟨closed, -, hname⟩ := Option.bind_eq_some_iff.mp hname
          split at hname
          · cases hname
          · obtain rfl := Option.some.inj hname
            exact mem_of_dropStart? hopened ((List.takeWhile_sublist _).subset hc)
        · exact fun c hc => List.mem_cons_of_mem _ (ih h c hc)
      next => exact fun c hc => List.mem_cons_of_mem _ (ih h c hc)

/-- **The tasks that whole texts refer to are whole.** -/
theorem whole_referencedTasks {texts : List String} (h : ∀ t ∈ texts, Whole t) :
    ∀ task ∈ Argo.referencedTasks texts, Whole task := by
  intro task htask
  rw [Argo.referencedTasks, mem_sortedTexts] at htask
  obtain ⟨t, ht, htask⟩ := List.mem_flatMap.mp htask
  exact (h t ht).of_subset (mem_of_scanTasks htask)

end PipelineCompiler
