import PipelineCompiler.Canonical
import PipelineCompiler.Proofs.Json.Items
import PipelineCompiler.Proofs.Text.Whole

namespace PipelineCompiler

/-!
# Data that always has a canonical text

The records of parts are made of truth values, texts, lists and mappings with text keys.  Where all
texts in them are whole, they have a canonical text, and it has a form in UTF-8.

* `Value.Plain` — such data;
* `Value.Plain.writes` — its canonical text;
* `PlainFields.structuralText` — the text by which a record with such fields is found.
-/

open Json Text

/-- Data that is made of truth values and whole texts. -/
inductive Value.Plain : Value → Prop
  | bool (b : Bool) : Plain (.bool b)
  | str {s : String} (whole : Whole s) : Plain (.str s)
  | list {items : List Value} (plain : ∀ v ∈ items, Plain v) : Plain (.list items)
  | fields {fields : List (String × Value)} (keys : ∀ field ∈ fields, Whole field.1)
      (plain : ∀ field ∈ fields, Plain field.2) : Plain (.ofFields fields)

/-- A list of whole texts. -/
theorem plain_ofTexts {texts : List String} (h : ∀ t ∈ texts, Whole t) :
    (Value.ofTexts texts).Plain := by
  refine .list fun v hv => ?_
  obtain ⟨t, ht, rfl⟩ := List.mem_map.mp hv
  exact .str (h t ht)

/-! ### Sorting keys -/

variable {α β : Type}

/-- Texts can be put among texts in order. -/
theorem exists_insertOn? {key : α → Value} {x : α} {xs : List α} (hx : ∃ s, key x = .str s)
    (hxs : ∀ y ∈ xs, ∃ s, key y = .str s) : ∃ ys, Value.insertOn? key x xs = some ys := by
  induction xs with
  | nil => exact ⟨[x], rfl⟩
  | cons y rest ih =>
    obtain ⟨s, hs⟩ := hx
    obtain ⟨t, ht⟩ := hxs y List.mem_cons_self
    obtain ⟨zs, hzs⟩ := ih fun z hz => hxs z (List.mem_cons_of_mem _ hz)
    have hless : Value.less? (key x) (key y) = some (decide (Text.codes s < Text.codes t)) := by
      rw [hs, ht]
      rfl
    rw [Value.insertOn?, hless, hzs]
    by_cases hst : Text.codes s < Text.codes t
    · exact ⟨_, by simp [hst]; rfl⟩
    · exact ⟨_, by simp [hst]; rfl⟩

/-- Texts can be put in order. -/
theorem exists_sortOn? {key : α → Value} {xs : List α}
    (h : ∀ x ∈ xs, ∃ s, key x = .str s) :
    ∃ ys, Value.sortOn? key xs = some ys := by
  suffices hfrom : ∀ sorted : List α, (∀ x ∈ sorted, ∃ s, key x = .str s) →
      ∃ ys, xs.foldlM (fun sorted x => Value.insertOn? key x sorted) sorted = some ys from
    hfrom [] fun _ hx => nomatch hx
  -- By induction on what is left to be put in order.
  induction xs with
  | nil => exact fun sorted _ => ⟨sorted, rfl⟩
  | cons x xs ih =>
    intro sorted hsorted
    have hx := h x List.mem_cons_self
    obtain ⟨next, hnext⟩ := exists_insertOn? hx hsorted
    have hall : ∀ y ∈ next, ∃ s, key y = .str s := by
      intro y hy
      rcases List.mem_cons.mp ((perm_insertOn hnext).subset hy) with rfl | hy
      · exact hx
      · exact hsorted y hy
    obtain ⟨ys, hys⟩ := ih (fun y hy => h y (List.mem_cons_of_mem _ hy)) next hall
    refine ⟨ys, ?_⟩
    rw [List.foldlM_cons, hnext]
    exact hys

/-! ### Writing -/

/-- Elements that each belong to something belong to a list together. -/
theorem exists_forall₂ {R : α → β → Prop} {xs : List α} (h : ∀ x ∈ xs, ∃ y, R x y) :
    ∃ ys, List.Forall₂ R xs ys := by
  induction xs with
  | nil => exact ⟨[], .nil⟩
  | cons x xs ih =>
    obtain ⟨y, hy⟩ := h x List.mem_cons_self
    obtain ⟨ys, hys⟩ := ih fun z hz => h z (List.mem_cons_of_mem _ hz)
    exact ⟨y :: ys, .cons hy hys⟩

/-- Whole texts between brackets. -/
theorem whole_enclose {opening closing : String} (hopening : Whole opening)
    (hclosing : Whole closing) {level : Nat} {texts : List String} (h : ∀ t ∈ texts, Whole t) :
    Whole (Style.canonical.enclose level opening closing texts) := by
  have hbreak : ∀ n, Whole (Style.canonical.newline n) := fun _ _ hc => nomatch hc
  have hseparator : Whole Style.canonical.itemSeparator := whole_of_ascii (by decide)
  unfold Style.enclose
  split
  · exact whole_append.mpr ⟨hopening, hclosing⟩
  · simp only [whole_append]
    exact ⟨⟨⟨⟨hopening, hbreak _⟩,
      whole_intercalate (whole_append.mpr ⟨hseparator, hbreak _⟩) h⟩, hbreak _⟩, hclosing⟩

/-- **Plain data has a canonical text**, which is whole. -/
theorem Value.Plain.writes {v : Value} (h : v.Plain) (around : List Nat) (level : Nat) :
    ∃ text, writeWithin .canonical around level v = .ok text ∧ Whole text := by
  -- By induction on plain data.  A list or mapping has a text since its parts have, and keys that
  -- are texts can be put in order.
  induction h generalizing around level with
  | bool b =>
    cases b with
    | true => exact ⟨_, rfl, whole_of_ascii (by decide)⟩
    | false => exact ⟨_, rfl, whole_of_ascii (by decide)⟩
  | str whole => exact ⟨_, rfl, whole_quote whole⟩
  | @list items _ ih =>
    obtain ⟨texts, htexts⟩ := exists_forall₂ fun v hv => ih v hv around (level + 1)
    have hwritten : writeItems .canonical around (level + 1) items = .ok texts :=
      writeItems_eq_ok.mpr (htexts.imp fun _ _ ht => ht.1)
    refine ⟨Style.canonical.enclose level "[" "]" texts, ?_, ?_⟩
    · rw [writeWithin, hwritten]
      rfl
    · refine whole_enclose (whole_of_ascii (by decide)) (whole_of_ascii (by decide +kernel))
        fun t ht => ?_
      obtain ⟨v, -, -, hwhole⟩ := exists_left_of_mem htexts ht
      exact hwhole
  | @fields fields keys _ ih =>
    obtain ⟨written, hwritten⟩ : ∃ written : List (Value × String), List.Forall₂
        (fun field entry =>
          WritesEntry .canonical around (level + 1) (.str field.1, field.2) entry ∧
            (∃ s, entry.1 = .str s) ∧ Whole entry.2) fields written := by
      refine exists_forall₂ fun field hfield => ?_
      obtain ⟨text, htext, hwhole⟩ := ih field hfield around (level + 1)
      have hseparator : Whole Style.canonical.keySeparator := whole_of_ascii (by decide)
      refine ⟨_, ⟨quote field.1, text, rfl, htext, rfl⟩, ⟨field.1, rfl⟩, ?_⟩
      exact whole_append.mpr
        ⟨whole_append.mpr ⟨whole_quote (keys field hfield), hseparator⟩, hwhole⟩
    have hentries : writeEntries .canonical around (level + 1)
        (fields.map fun field => (Value.str field.1, field.2)) = .ok written := by
      rw [writeEntries_eq_ok, List.forall₂_map_left_iff]
      exact hwritten.imp fun _ _ hentry => hentry.1
    have hkeys : ∀ entry ∈ written, ∃ s, entry.1 = .str s := fun entry hentry =>
      (exists_left_of_mem hwritten hentry).choose_spec.2.2.1
    obtain ⟨arranged, harranged⟩ := exists_sortOn? hkeys
    have harrange : Style.canonical.arrange written = .ok arranged := by
      rw [Style.arrange, if_pos (show Style.canonical.sorted = true from rfl), harranged]
    refine ⟨Style.canonical.enclose level "\x7b" "\x7d" (arranged.map (·.2)), ?_, ?_⟩
    · rw [Value.ofFields, writeWithin, hentries]
      show (Style.canonical.arrange written >>= _) = _
      rw [harrange]
      rfl
    · refine whole_enclose (whole_of_ascii (by decide)) (whole_of_ascii (by decide +kernel))
        fun t ht => ?_
      obtain ⟨entry, hentry, rfl⟩ := List.mem_map.mp ht
      have hmem := (perm_arrange harrange).subset hentry
      exact (exists_left_of_mem hwritten hmem).choose_spec.2.2.2

/-! ### Records -/

/-- Fields of a record, with whole names and plain values. -/
def PlainFields (fields : List (String × Value)) : Prop :=
  ∀ field ∈ fields, Whole field.1 ∧ field.2.Plain

/-- There are no fields. -/
theorem PlainFields.nil : PlainFields [] := fun _ hfield => nomatch hfield

/-- One field, and the others. -/
theorem PlainFields.cons {name : String} (hname : Whole name) {value : Value} (hvalue : value.Plain)
    {rest : List (String × Value)} (hrest : PlainFields rest) :
    PlainFields ((name, value) :: rest) :=
  List.forall_mem_cons.mpr ⟨⟨hname, hvalue⟩, hrest⟩

/-- Fields behind fields. -/
theorem plainFields_append {fields others : List (String × Value)} :
    PlainFields (fields ++ others) ↔ PlainFields fields ∧ PlainFields others := by
  rw [PlainFields, List.forall_mem_append, PlainFields, PlainFields]

/-- A mapping with such fields. -/
theorem PlainFields.plain {fields : List (String × Value)} (h : PlainFields fields) :
    (Value.ofFields fields).Plain :=
  .fields (fun field hfield => (h field hfield).1) fun field hfield => (h field hfield).2

/-- **A plain record can be found**: it has a text without its name. -/
theorem PlainFields.structuralText {fields : List (String × Value)} (h : PlainFields fields)
    (nameField : String) :
    ∃ text, PipelineCompiler.structuralText (some nameField) (.ofFields fields) = .ok text := by
  -- To leave a field out of the mapping is to leave it out of the list of fields.
  have hfilter : withoutField (some nameField)
      (fields.map fun field => (Value.str field.1, field.2))
        = (fields.filter fun field => field.1 != nameField).map
          fun field => (Value.str field.1, field.2) := by
    rw [withoutField, List.filter_map]
    rfl
  have hrest : PlainFields (fields.filter fun field => field.1 != nameField) :=
    fun field hfield => h field (List.mem_filter.mp hfield).1
  obtain ⟨text, htext, hwhole⟩ := hrest.plain.writes [] 0
  refine ⟨text, ?_⟩
  simp only [PipelineCompiler.structuralText, Value.ofFields, Value.bare, hfilter]
  rw [canonicalText, write]
  change (writeWithin _ _ _ (Value.ofFields _)).bind wholeText = _
  rw [htext]
  exact wholeText_eq_ok hwhole

end PipelineCompiler
