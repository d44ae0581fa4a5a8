import PipelineCompiler.Canonical
import PipelineCompiler.Proofs.Json.Items
import PipelineCompiler.Proofs.Text.Whole

namespace PipelineCompiler

/-!
# Texts that are held in data

What has a digest has a canonical text with a form in UTF-8, and then so have the texts in it.

* `Value.Holds` — the texts that data holds;
* `Value.Holds.whole` — they are whole if the canonical text is;
* `whole_of_configHash`, `whole_of_structuralText` — the texts in configurations and records that
  have a digest.
-/

open Json Text

/-- Data holds a text: somewhere in it there is the text as a value. -/
inductive Value.Holds (text : String) : Value → Prop
  | str : Holds text (.str text)
  | item {items : List Value} {v : Value} (mem : v ∈ items) (held : Holds text v) :
      Holds text (.list items)
  | entry {entries : Value.Entries} {entry : Value × Value} (mem : entry ∈ entries)
      (held : Holds text entry.2) : Holds text (.map entries)
  | placed (place : Nat) {v : Value} (held : Holds text v) : Holds text (.placed place v)

namespace Value.Holds

variable {text : String}

/-- The texts of a list of texts. -/
theorem ofTexts {texts : List String} (h : text ∈ texts) : (Value.ofTexts texts).Holds text :=
  .item (List.mem_map_of_mem h) .str

/-- The texts in a field. -/
theorem ofFields {fields : List (String × Value)} {field : String × Value} (h : field ∈ fields)
    (held : field.2.Holds text) : (Value.ofFields fields).Holds text :=
  .entry (List.mem_map_of_mem h) held

/-- The texts in a list of documents. -/
theorem ofItems {α : Type} {document : α → Value} {xs : List α} {x : α} (h : x ∈ xs)
    (held : (document x).Holds text) : (Value.list (xs.map document)).Holds text :=
  .item (List.mem_map_of_mem h) held

/-- A value without its place holds nothing else. -/
theorem of_bare {v : Value} (h : v.bare.Holds text) : v.Holds text := by
  induction v using Value.bare.induct with
  | case1 place v ih => exact .placed place (ih h)
  | case2 v hplaced =>
    rwa [Value.bare] at h
    exact hplaced

end Value.Holds

/-! ### Canonical texts -/

/-- The characters of items are among those of the text around them. -/
theorem mem_enclose {level : Nat} {opening closing : String} {items : List String} {item : String}
    (h : item ∈ items) {c : Char} (hc : c ∈ item.toList) :
    c ∈ (Style.canonical.enclose level opening closing items).toList := by
  have hbetween : c ∈ ((Style.canonical.itemSeparator ++
      Style.canonical.newline (level + 1)).intercalate items).toList := by
    -- By induction on the items.
    induction items with
    | nil => cases h
    | cons first rest ih =>
      cases rest with
      | nil =>
        obtain rfl := List.mem_singleton.mp h
        rwa [String.intercalate_singleton]
      | cons second rest =>
        rw [String.intercalate_cons_cons, String.toList_append, String.toList_append,
          List.mem_append, List.mem_append]
        rcases List.mem_cons.mp h with rfl | h
        · exact .inl (.inl hc)
        · exact .inr (ih h)
  unfold Style.enclose
  rw [if_neg (by cases items with
    | nil => cases h
    | cons => exact Bool.false_ne_true)]
  simp only [String.toList_append, List.mem_append]
  exact .inl (.inl (.inr hbetween))

/-- **A text is whole if its quoted form is**, because halves are not escaped. -/
theorem whole_of_quote {s : String} (h : Whole (quote s)) : Whole s := by
  intro c hc
  -- A half is not in ASCII, so that it is neither escaped nor replaced.
  cases hhalf : isHalf (codeOf c) with
  | false => rfl
  | true =>
    have hrange := range_of_isHalf hhalf
    have hquoted : quoteChar c = c.toString := by
      have hne : ∀ d : Char, d.toNat < 128 → (c == d) = false := by
        intro d hd
        rw [beq_eq_false_iff_ne]
        rintro rfl
        omega
      unfold quoteChar
      rw [hne _ (by decide), hne _ (by decide), hne _ (by decide), hne _ (by decide),
        hne _ (by decide), hne _ (by decide), hne _ (by decide), if_neg (show ¬ c.toNat < 0x20 by
          omega)]
      rfl
    have hmem : c ∈ (quote s).toList := by
      rw [toList_quote]
      refine List.mem_cons_of_mem _ (List.mem_append_left _ ?_)
      exact List.mem_flatMap.mpr ⟨c, hc, by rw [hquoted]; exact
        (String.toList_singleton c).symm ▸ List.mem_singleton_self c⟩
    exact hhalf.symm.trans (h c hmem)

/-- **Texts in data are whole if its canonical text is.** -/
theorem Value.Holds.whole {text : String} {v : Value} (h : v.Holds text) {around : List Nat}
    {level : Nat} {out : String} (hwritten : writeWithin .canonical around level v = .ok out)
    (hwhole : Whole out) : Whole text := by
  -- By induction on where the text stands; the text of what holds it is a part of the whole.
  induction h generalizing around level out with
  | str =>
    obtain rfl := Except.ok.inj hwritten
    exact whole_of_quote hwhole
  | item mem _ ih =>
    rw [writeWithin] at hwritten
    obtain ⟨texts, htexts, hwritten⟩ := bind_eq_ok.mp hwritten
    obtain rfl := pure_eq_ok.mp hwritten
    obtain ⟨t, ht, hitem⟩ := exists_right_of_mem (writeItems_eq_ok.mp htexts) mem
    exact ih hitem (hwhole.of_subset fun c hc => mem_enclose ht hc)
  | entry mem _ ih =>
    rw [writeWithin] at hwritten
    obtain ⟨written, hentries, hwritten⟩ := bind_eq_ok.mp hwritten
    obtain ⟨arranged, harranged, hwritten⟩ := bind_eq_ok.mp hwritten
    obtain rfl := pure_eq_ok.mp hwritten
    obtain ⟨_, hentry, keyText, value, -, hvalue, rfl⟩ :=
      exists_right_of_mem (writeEntries_eq_ok.mp hentries) mem
    have harrangedMem := (perm_arrange harranged).symm.subset hentry
    refine ih hvalue (hwhole.of_subset fun c hc =>
      mem_enclose (List.mem_map_of_mem harrangedMem) ?_)
    rw [String.toList_append]
    exact List.mem_append_right _ hc
  | placed place _ ih =>
    rw [writeWithin] at hwritten
    split at hwritten
    · cases hwritten
    · exact ih hwritten hwhole

/-! ### Digests -/

/-- A text for storage is whole. -/
theorem whole_of_wholeText {s t : String} (h : wholeText s = .ok t) : Whole s := by
  unfold wholeText at h
  split at h
  next hwhole => exact whole_iff.mpr hwhole
  next => cases h

/-- **Texts in a configuration with a digest are whole.** -/
theorem whole_of_configHash {config : Value} {hash : String} (h : configHash config = .ok hash)
    {text : String} (hheld : config.bare.Holds text) : Whole text := by
  unfold configHash at h
  split at h
  next entries hentries =>
    rw [hentries] at hheld
    obtain ⟨stored, hstored, -⟩ := map_eq_ok.mp h
    obtain ⟨written, hwritten, hstored⟩ := bind_eq_ok'.mp hstored
    exact hheld.whole hwritten (whole_of_wholeText hstored)
  next => cases h

/-- **Texts in a record with a digest are whole**, its name aside. -/
theorem whole_of_structuralText {fields : List (String × Value)} {nameField found : String}
    (h : structuralText (some nameField) (.ofFields fields) = .ok found) {field : String × Value}
    (hfield : field ∈ fields) (hname : field.1 ≠ nameField) {text : String}
    (hheld : field.2.Holds text) : Whole text := by
  simp only [structuralText, Value.ofFields, Value.bare] at h
  obtain ⟨written, hwritten, hstored⟩ := bind_eq_ok'.mp h
  have hmem : (Value.str field.1, field.2) ∈ withoutField (some nameField)
      (fields.map fun field => (Value.str field.1, field.2)) := by
    refine List.mem_filter.mpr ⟨List.mem_map_of_mem (f := fun field => _) hfield, ?_⟩
    have hother : (field.1 == nameField) = false := beq_eq_false_iff_ne.mpr hname
    change (!(field.1 == nameField)) = true
    rw [hother]
    rfl
  exact (Value.Holds.entry hmem hheld).whole hwritten (whole_of_wholeText hstored)

end PipelineCompiler
