import PipelineCompiler.Canonical
import PipelineCompiler.Proofs.Json.Items
import PipelineCompiler.Proofs.Keyed

namespace PipelineCompiler

/-!
# Values with one canonical text

Parts of a document are shared when their records have the same canonical text.  This file says
what such records have in common, whatever data is in them:

* `Alike` — two values with the same canonical text;
* `alike_str`, `alike_list`, `alike_ofFields` — texts are equal, lists are alike item by item, and
  every field of a mapping has a field of the same name with an alike value;
* `map_eq_of_alike` — lists of alike documents have in common what alike documents have;
* `alike_of_structuralText` — records found under one text are alike.
-/

open Json

/-- Two values with the same canonical text, wherever they stand. -/
def Alike (v w : Value) : Prop :=
  ∃ around level around' level' text,
    writeWithin .canonical around level v = .ok text ∧
      writeWithin .canonical around' level' w = .ok text

/-- What is alike one way is alike the other way. -/
theorem Alike.symm {v w : Value} (h : Alike v w) : Alike w v := by
  obtain ⟨around, level, around', level', text, hv, hw⟩ := h
  exact ⟨around', level', around, level, text, hw, hv⟩

/-- Texts that are alike are equal. -/
theorem alike_str {s t : String} (h : Alike (.str s) (.str t)) : s = t := by
  obtain ⟨around, level, around', level', text, hs, ht⟩ := h
  have hs' : quote s = text := Except.ok.inj hs
  have ht' : quote t = text := Except.ok.inj ht
  exact quote_inj (hs'.trans ht'.symm)

/-! ### Parts of alike values -/

/-- Lists that are alike are so item by item. -/
theorem alike_list {xs ys : List Value} (h : Alike (.list xs) (.list ys)) :
    List.Forall₂ Alike xs ys := by
  obtain ⟨around, level, around', level', text, hx, hy⟩ := h
  rw [writeWithin] at hx hy
  obtain ⟨ts, hts, hx⟩ := bind_eq_ok.mp hx
  obtain ⟨us, hus, hy⟩ := bind_eq_ok.mp hy
  have henclose := (pure_eq_ok.mp hx).trans (pure_eq_ok.mp hy).symm
  rw [writeItems_eq_ok] at hts hus
  have hitem : ∀ {around level} {vs : List Value} {texts : List String},
      List.Forall₂ (fun v text => writeWithin .canonical around level v = .ok text) vs texts →
        ∀ t ∈ texts, IsItem t.toList := by
    intro around level vs texts hall t ht
    obtain ⟨v, -, hv⟩ := exists_left_of_mem hall ht
    exact item_of_writeWithin around level v t hv
  obtain rfl := enclose_inj (.inl ⟨rfl, rfl⟩) (hitem hts) (hitem hus) henclose
  exact forall₂_join (fun v text w hv hw => ⟨_, _, _, _, text, hv, hw⟩) hts hus

/-- The written entries of a mapping are items. -/
theorem item_of_writesEntry {around : List Nat} {level : Nat} {entry : Value × Value}
    {written : Value × String} (h : WritesEntry .canonical around level entry written) :
    IsItem written.2.toList := by
  obtain ⟨keyText, text, hkey, htext, rfl⟩ := h
  obtain ⟨s, rfl⟩ := exists_quote_of_key hkey
  exact item_entry s (item_of_writeWithin around level _ text htext)

/-- The text of a mapping with text keys, its entries in any order. -/
theorem exists_written_of_ofFields {around : List Nat} {level : Nat}
    {fields : List (String × Value)} {text : String}
    (h : writeWithin .canonical around level (.ofFields fields) = .ok text) :
    ∃ written : List (Value × String),
      text = Style.canonical.enclose level "\x7b" "\x7d" (written.map (·.2)) ∧
      (∀ entry ∈ written, IsItem entry.2.toList) ∧
      (∀ k v, (k, v) ∈ fields →
        ∃ part, writeWithin .canonical around (level + 1) v = .ok part ∧
        quote k ++ ":" ++ part ∈ written.map (·.2)) ∧
      (∀ line ∈ written.map (·.2), ∃ k v part, (k, v) ∈ fields ∧
        writeWithin .canonical around (level + 1) v = .ok part ∧
        line = quote k ++ ":" ++ part) := by
  rw [Value.ofFields, writeWithin] at h
  obtain ⟨written, hwritten, h⟩ := bind_eq_ok.mp h
  obtain ⟨arranged, harranged, h⟩ := bind_eq_ok.mp h
  -- the entries are written in any order, since only their order is arranged
  have hperm := perm_arrange harranged
  rw [writeEntries_eq_ok] at hwritten
  refine ⟨arranged, (pure_eq_ok.mp h).symm, fun entry hentry => ?_, fun k v hkv => ?_,
    fun line hline => ?_⟩
  · obtain ⟨field, -, hfield⟩ := exists_left_of_mem hwritten (hperm.subset hentry)
    exact item_of_writesEntry hfield
  · obtain ⟨line, hline, hentry⟩ := exists_right_of_mem hwritten
      (List.mem_map_of_mem (f := fun field => (Value.str field.1, field.2)) hkv)
    obtain ⟨keyText, part, hkey, hpart, rfl⟩ := hentry
    obtain rfl : quote k = keyText := Except.ok.inj hkey
    exact ⟨part, hpart, List.mem_map_of_mem (f := (·.2)) (hperm.symm.subset hline)⟩
  · obtain ⟨entry, hentry, rfl⟩ := List.mem_map.mp hline
    obtain ⟨field, hfield, hentry⟩ := exists_left_of_mem hwritten (hperm.subset hentry)
    obtain ⟨⟨k, v⟩, hkv, rfl⟩ := List.mem_map.mp hfield
    obtain ⟨keyText, part, hkey, hpart, rfl⟩ := hentry
    obtain rfl : quote k = keyText := Except.ok.inj hkey
    exact ⟨k, v, part, hkv, hpart, rfl⟩

/-- **A field of a mapping has a field of an alike mapping with the same name and an alike
    value.** -/
theorem alike_ofFields {fs gs : List (String × Value)} (h : Alike (.ofFields fs) (.ofFields gs))
    {k : String} {v : Value} (hv : (k, v) ∈ fs) : ∃ w, (k, w) ∈ gs ∧ Alike v w := by
  obtain ⟨around, level, around', level', text, hf, hg⟩ := h
  obtain ⟨written, rfl, hitems, hparts, -⟩ := exists_written_of_ofFields hf
  obtain ⟨written', henclose, hitems', -, hlines⟩ := exists_written_of_ofFields hg
  have hmem : ∀ {ws : List (Value × String)}, (∀ entry ∈ ws, IsItem entry.2.toList) →
      ∀ t ∈ ws.map (·.2), IsItem t.toList := by
    intro ws hws t ht
    obtain ⟨entry, hentry, rfl⟩ := List.mem_map.mp ht
    exact hws entry hentry
  -- both texts are split at the same places, because items do not go on behind their ends
  have hsame := enclose_inj (.inr ⟨rfl, rfl⟩) (hmem hitems) (hmem hitems') henclose
  obtain ⟨part, hpart, hline⟩ := hparts k v hv
  rw [hsame] at hline
  obtain ⟨k', w, part', hw, hpart', heq⟩ := hlines _ hline
  -- the key ends at its quote, and the text of the value begins behind the colon
  have hchars := congrArg String.toList heq
  simp only [String.toList_append, List.append_assoc] at hchars
  obtain ⟨rfl, hrest⟩ := quote_append_inj hchars
  obtain rfl : part = part' := String.toList_inj.mp (List.append_cancel_left hrest)
  exact ⟨w, hw, _, _, _, _, part, hpart, hpart'⟩

/-- The same for a name that only one field has. -/
theorem alike_field {fs gs : List (String × Value)} (h : Alike (.ofFields fs) (.ofFields gs))
    {k : String} {v w : Value} (hv : (k, v) ∈ fs) (hw : ∀ w', (k, w') ∈ gs → w' = w) :
    Alike v w := by
  obtain ⟨w', hmem, halike⟩ := alike_ofFields h hv
  rwa [hw w' hmem] at halike

/-- Lists of alike documents have in common what any two alike documents have. -/
theorem map_eq_of_alike {α β : Type} {f : α → Value} {g : α → β} {xs ys : List α}
    (hg : ∀ x y, Alike (f x) (f y) → g x = g y)
    (h : Alike (.list (xs.map f)) (.list (ys.map f))) : xs.map g = ys.map g := by
  have hall := alike_list h
  clear h
  induction xs generalizing ys with
  | nil =>
    cases ys with
    | nil => rfl
    | cons y ys => cases hall
  | cons x xs ih =>
    cases ys with
    | nil => cases hall
    | cons y ys =>
      rw [List.map_cons, List.map_cons, List.forall₂_cons] at hall
      rw [List.map_cons, List.map_cons, hg x y hall.1, ih hall.2]

/-! ### Records of parts -/

/-- Two text keys are the same when the texts are. -/
theorem sameKey_str (a b : String) : (Value.str a).sameKey (.str b) = (a == b) := rfl

/-- A record without a name is what its text is made from. -/
theorem canonical_of_structuralText {nameField text : String} {fields : List (String × Value)}
    (hfields : ∀ field ∈ fields, field.1 ≠ nameField)
    (h : structuralText (some nameField) (.ofFields fields) = .ok text) :
    writeWithin .canonical [] 0 (.ofFields fields) = .ok text := by
  -- no field is left out, because none has that name
  have hfilter : withoutField (some nameField)
      (fields.map fun field => (Value.str field.1, field.2))
        = fields.map fun field => (Value.str field.1, field.2) := by
    refine List.filter_eq_self.mpr fun entry hentry => ?_
    obtain ⟨field, hfield, rfl⟩ := List.mem_map.mp hentry
    rw [sameKey_str]
    simpa using hfields field hfield
  unfold structuralText Value.ofFields at h
  simp only [Value.bare] at h
  rw [hfilter] at h
  obtain ⟨t, ht, h⟩ := bind_eq_ok'.mp h
  unfold wholeText at h
  split at h
  · obtain rfl := Except.ok.inj h
    exact ht
  · cases h

/-- **Records that are found under one text are alike.** -/
theorem alike_of_structuralText {nameField text : String} {fs gs : List (String × Value)}
    (hfs : ∀ field ∈ fs, field.1 ≠ nameField) (hgs : ∀ field ∈ gs, field.1 ≠ nameField)
    (hf : structuralText (some nameField) (.ofFields fs) = .ok text)
    (hg : structuralText (some nameField) (.ofFields gs) = .ok text) :
    Alike (.ofFields fs) (.ofFields gs) :=
  ⟨_, _, _, _, text, canonical_of_structuralText hfs hf, canonical_of_structuralText hgs hg⟩

end PipelineCompiler
