import PipelineCompiler.Proofs.Json.Held
import PipelineCompiler.Proofs.Json.Plain
import PipelineCompiler.Proofs.Json.Restored
import PipelineCompiler.Proofs.Json.Grammar
import PipelineCompiler.Proofs.Json.Same
import PipelineCompiler.Proofs.Naming.Registry

namespace PipelineCompiler

/-!
# Canonical texts tell data apart

Two values of JSON have one canonical text if and only if they are equal up to the order of keys,
and so have two records one structural key, the names of the records aside.

* `Value.IsJson` — the values of JSON: scalars whose floats are finite, lists, and mappings with
  different text keys;
* `Value.IsJson.same` — values with one text are equal;
* `Value.IsJson.writes_iff` — a value has a text if and only if its whole numbers are short
  enough;
* `Value.texts`, `Value.IsJson.whole_iff` — the text has a form in UTF-8 if and only if the texts
  in the value have;
* `canonical_exact` — what canonical texts and structural keys tell.

The first is unique readability.  A scalar is read back from its text, and a list or mapping falls
into its parts in one way only, because no part goes on behind its end.
-/

open Json Text

/-! ### Values of JSON -/

/-- The scalars of JSON.  Floats are finite. -/
def Value.IsScalar : Value → Prop
  | .null | .bool _ | .int _ | .str _ => True
  | .float x => IsFinite x
  | _ => False

/-- The values of JSON. -/
inductive Value.IsJson : Value → Prop
  | scalar {v : Value} (scalar : v.IsScalar) : IsJson v
  | list {items : List Value} (each : ∀ v ∈ items, IsJson v) : IsJson (.list items)
  | fields {fields : List (String × Value)} (nodup : (Keyed.keys fields).Nodup)
      (each : ∀ field ∈ fields, IsJson field.2) : IsJson (.ofFields fields)

mutual

/-- The texts in a value, the keys of mappings among them. -/
def Value.texts : Value → List String
  | .str s => [s]
  | .list items | .tuple items | .set items => textsOf items
  | .map entries => textsIn entries
  | .placed _ v => texts v
  | _ => []

/-- The texts in the items of a list. -/
def Value.textsOf : List Value → List String
  | [] => []
  | item :: rest => texts item ++ textsOf rest

/-- The texts in the entries of a mapping. -/
def Value.textsIn : List (Value × Value) → List String
  | [] => []
  | (key, value) :: rest => texts key ++ (texts value ++ textsIn rest)

end

/-- The texts in a list. -/
theorem mem_texts_list {items : List Value} {t : String} :
    t ∈ (Value.list items).texts ↔ ∃ v ∈ items, t ∈ v.texts := by
  rw [Value.texts]
  induction items with
  | nil => simp [Value.textsOf]
  | cons item rest ih => simp [Value.textsOf, ih]

/-- The texts in a mapping. -/
theorem mem_texts_ofFields {fields : List (String × Value)} {t : String} :
    t ∈ (Value.ofFields fields).texts ↔ ∃ field ∈ fields, t = field.1 ∨
      t ∈ field.2.texts := by
  rw [Value.ofFields, Value.texts]
  induction fields with
  | nil => simp [Value.textsIn]
  | cons field rest ih => simp [Value.textsIn, Value.texts, ih, or_assoc]

/-! ### Scalars -/

namespace Value.IsScalar

variable {v w : Value} {text : String}

/-- A scalar is written by itself, wherever it stands. -/
theorem writeWithin_eq (h : v.IsScalar) (style : Style) (around : List Nat) (level : Nat) :
    writeWithin style around level v = scalar v := by
  cases v with
  | null | bool | int | float | str => rfl
  | bytes | date | timestamp | list | tuple | set | map | placed | endless => cases h

/-- A scalar without quotes is read back from its text. -/
theorem read_back (hstr : ∀ s, v ≠ .str s) (hv : scalar v = .ok text) :
    Json.value 0 1 text.toList = .ok (v, []) := by
  have hends : Ends [] := fun c hc => nomatch hc
  -- Numbers and words are read by what they start with.
  cases v with
  | null =>
    obtain rfl := Except.ok.inj hv
    rfl
  | bool b =>
    obtain rfl := Except.ok.inj hv
    cases b with
    | false => rfl
    | true => rfl
  | int i =>
    simp only [scalar] at hv
    split at hv
    · cases hv
    next hshort =>
      obtain rfl := Except.ok.inj hv
      simpa using value_int 0 0 (Bool.eq_false_iff.mpr hshort) hends
  | float x =>
    obtain rfl := Except.ok.inj hv
    simpa using value_float 0 0 x hends
  | str s => exact absurd rfl (hstr s)
  | bytes | date | timestamp | list | tuple | set | map | placed | endless => cases hv

/-- A quoted text is the text of no other scalar. -/
theorem eq_str {s : String} (hv : scalar v = .ok (quote s)) : v = .str s := by
  rcases scalar_cases hv with ⟨t, rfl, heq⟩ | ⟨-, hplain⟩
  · rw [quote_inj heq]
  · rw [toList_quote] at hplain
    exact absurd (hplain '\x22' List.mem_cons_self) (by decide)

/-- **Scalars with one text are equal.** -/
theorem eq_of_scalar (hv : scalar v = .ok text) (hw : scalar w = .ok text) : v = w := by
  by_cases hstr : ∃ s, v = .str s
  · obtain ⟨s, rfl⟩ := hstr
    obtain rfl := Except.ok.inj hv
    exact (eq_str hw).symm
  by_cases hstr' : ∃ s, w = .str s
  · obtain ⟨s, rfl⟩ := hstr'
    obtain rfl := Except.ok.inj hw
    exact eq_str hv
  · have hread := read_back (fun s heq => hstr ⟨s, heq⟩) hv
    have hread' := read_back (fun s heq => hstr' ⟨s, heq⟩) hw
    exact (Prod.mk.inj (Except.ok.inj (hread.symm.trans hread'))).1

/-- No text of a scalar begins with a bracket. -/
theorem not_starts (h : v.IsScalar) {c : Char} (hc : c = '[' ∨ c = '\x7b') (hw : Starts c w) :
    ¬ Alike v w := by
  rintro ⟨around, level, around', level', text, hv, hw'⟩
  obtain ⟨rest, hrest⟩ := hw _ _ _ hw'
  rw [h.writeWithin_eq] at hv
  -- A text begins with a quote; numbers and words have no brackets.
  rcases scalar_cases hv with ⟨s, -, rfl⟩ | ⟨-, hplain⟩
  · rw [toList_quote] at hrest
    obtain rfl := (List.cons.inj hrest).1
    revert hc
    decide
  · have hmem : c ∈ text.toList := by simp [hrest]
    have hplain := hplain c hmem
    rcases hc with rfl | rfl
    · revert hplain
      decide
    · revert hplain
      decide

end Value.IsScalar

/-! ### Values with one text -/

/-- **Values of JSON with one text are equal**, up to the order of keys. -/
theorem Value.IsJson.same {v w : Value} (hv : v.IsJson) (hw : w.IsJson) (h : Alike v w) :
    v.Same w := by
  have hbracket := starts_list
  have hbrace := starts_map
  induction hv generalizing w with
  | @scalar v hscalar =>
    cases hw with
    | scalar hscalar' =>
      obtain ⟨around, level, around', level', text, htext, htext'⟩ := h
      rw [hscalar.writeWithin_eq] at htext
      rw [hscalar'.writeWithin_eq] at htext'
      obtain rfl := Value.IsScalar.eq_of_scalar htext htext'
      exact .refl v
    | list => exact absurd h (hscalar.not_starts (.inl rfl) (hbracket _))
    | fields => exact absurd h (hscalar.not_starts (.inr rfl) (hbrace _))
  | @list items _ ih =>
    cases hw with
    | scalar hscalar => exact absurd h.symm (hscalar.not_starts (.inl rfl) (hbracket _))
    | list each =>
      obtain ⟨hlength, heach⟩ := List.forall₂_iff_zip.mp (alike_list h)
      refine .list hlength fun pair hpair => ?_
      have hmem := List.of_mem_zip hpair
      exact ih pair.1 hmem.1 (each pair.2 hmem.2) (heach hpair)
    | fields => exact absurd ((hbracket _).eq (hbrace _) h) (by decide)
  | @fields fs _ _ ih =>
    cases hw with
    | scalar hscalar => exact absurd h.symm (hscalar.not_starts (.inr rfl) (hbrace _))
    | list => exact absurd ((hbracket _).eq (hbrace _) h.symm) (by decide)
    | @fields gs nodup each =>
      refine .fields (keys_perm_of_alike h) fun k v w hv hw => ?_
      -- a key that is there once belongs to one value
      have hone : ∀ w', (k, w') ∈ gs → w' = w := fun w' hw' =>
        Option.some.inj ((Keyed.find?_of_mem nodup hw').symm.trans (Keyed.find?_of_mem nodup hw))
      exact ih (k, v) hv (each (k, w) hw) (alike_field h hv hone)

/-! ### Which values have a text -/

/-- The items of a list can be shown one by one. -/
theorem areShown_iff {around : List Nat} {items : List Value} :
    Value.areShown around items = true ↔ ∀ v ∈ items, v.isShownWithin around = true := by
  induction items with
  | nil => simp [Value.areShown]
  | cons item rest ih => simp [Value.areShown, ih]

/-- The values of a mapping with text keys can be shown one by one. -/
theorem isShownWithin_ofFields {around : List Nat} {fields : List (String × Value)} :
    (Value.ofFields fields).isShownWithin around = true ↔
      ∀ field ∈ fields, field.2.isShownWithin around = true := by
  rw [Value.ofFields, Value.isShownWithin]
  induction fields with
  | nil => simp [Value.areShownEntries]
  | cons field rest ih => simp [Value.areShownEntries, Value.isShownWithin, ih]

/-- A mapping with text keys is written if its values are. -/
theorem exists_write_ofFields {around : List Nat} {level : Nat} {fields : List (String × Value)}
    (h : ∀ field ∈ fields, ∃ text,
      writeWithin .canonical around (level + 1) field.2 = .ok text) :
    ∃ text, writeWithin .canonical around level (.ofFields fields) = .ok text := by
  obtain ⟨written, hwritten⟩ : ∃ written, List.Forall₂
      (WritesEntry .canonical around (level + 1))
      (fields.map fun field => (Value.str field.1, field.2)) written := by
    refine exists_forall₂ fun entry hentry => ?_
    obtain ⟨field, hfield, rfl⟩ := List.mem_map.mp hentry
    obtain ⟨text, htext⟩ := h field hfield
    exact ⟨_, quote field.1, text, rfl, htext, rfl⟩
  -- The keys are texts, so they can be sorted.
  have hkeys : ∀ entry ∈ written, ∃ s, entry.1 = .str s := by
    intro entry hentry
    obtain ⟨_, hmem, keyText, text, -, -, rfl⟩ := exists_left_of_mem hwritten hentry
    obtain ⟨field, -, rfl⟩ := List.mem_map.mp hmem
    exact ⟨field.1, rfl⟩
  obtain ⟨arranged, harranged⟩ := exists_sortOn? hkeys
  have harrange : Style.canonical.arrange written = .ok arranged := by
    rw [Style.arrange, if_pos (show Style.canonical.sorted = true from rfl), harranged]
  refine ⟨Style.canonical.enclose level "\x7b" "\x7d" (arranged.map (·.2)), ?_⟩
  rw [Value.ofFields, writeWithin, writeEntries_eq_ok.mpr hwritten]
  show (Style.canonical.arrange written >>= _) = _
  rw [harrange]
  rfl

/-- **A value of JSON has a canonical text if and only if it can be shown**: no whole number in it
    has too many digits. -/
theorem Value.IsJson.writes_iff {v : Value} (h : v.IsJson) (around : List Nat) (level : Nat)
    (places : List Nat) :
    (∃ text, writeWithin .canonical around level v = .ok text) ↔
      v.isShownWithin places = true := by
  -- By induction on the data.  Only whole numbers can fail to be shown, and keys that are texts can
  -- always be put in order.
  induction h generalizing level with
  | @scalar v hscalar =>
    rw [hscalar.writeWithin_eq]
    cases v with
    | null | bool | float | str => simp [Json.scalar, Value.isShownWithin]
    | int i =>
      by_cases hlong : Number.isTooLong i = true
      · simp [Json.scalar, Value.isShownWithin, hlong]
      · simp [Json.scalar, Value.isShownWithin, hlong]
    | bytes | date | timestamp | list | tuple | set | map | placed | endless => cases hscalar
  | @list items _ ih =>
    rw [Value.isShownWithin, areShown_iff, writeWithin]
    constructor
    · rintro ⟨text, h⟩ v hv
      obtain ⟨texts, htexts, -⟩ := bind_eq_ok.mp h
      obtain ⟨t, -, ht⟩ := exists_right_of_mem (writeItems_eq_ok.mp htexts) hv
      exact (ih v hv (level + 1)).mp ⟨t, ht⟩
    · intro h
      obtain ⟨texts, htexts⟩ := exists_forall₂ fun v hv => (ih v hv (level + 1)).mpr (h v hv)
      rw [writeItems_eq_ok.mpr htexts]
      exact ⟨_, rfl⟩
  | @fields fields _ _ ih =>
    rw [isShownWithin_ofFields]
    constructor
    · rintro ⟨text, h⟩ field hfield
      rw [Value.ofFields, writeWithin] at h
      obtain ⟨written, hwritten, -⟩ := bind_eq_ok.mp h
      obtain ⟨_, -, keyText, t, -, ht, -⟩ :=
        exists_right_of_mem (writeEntries_eq_ok.mp hwritten)
        (List.mem_map_of_mem (f := fun field => (Value.str field.1, field.2)) hfield)
      exact (ih field hfield (level + 1)).mp ⟨t, ht⟩
    · intro h
      exact exists_write_ofFields fun field hfield =>
        (ih field hfield (level + 1)).mpr (h field hfield)

/-! ### Which texts have a form in UTF-8 -/

/-- A quoted text is whole if and only if the text is. -/
theorem whole_quote_iff {s : String} : Whole (quote s) ↔ Whole s :=
  ⟨whole_of_quote, whole_quote⟩

/-- Characters of numbers and words are of ASCII. -/
theorem whole_of_plain {s : String} (h : Number.PlainText s.toList) : Whole s := by
  intro c hc
  have hplain := h c hc
  simp only [Number.isPlain, Bool.or_eq_true, beq_iff_eq] at hplain
  rcases hplain with ((halpha | rfl) | rfl) | rfl
  · exact not_isHalf_of_ascii (ascii_of_isAlphanum halpha)
  · decide
  · decide
  · decide

/-- Items between brackets are whole if and only if they are so one by one. -/
theorem whole_enclose_iff {opening closing : String} (hopening : Whole opening)
    (hclosing : Whole closing) {level : Nat} {items : List String} :
    Whole (Style.canonical.enclose level opening closing items) ↔ ∀ t ∈ items, Whole t :=
  ⟨fun h _ ht => h.of_subset fun _ hc => mem_enclose ht hc,
    fun h => whole_enclose hopening hclosing h⟩

/-- **The canonical text of a value is whole if and only if the texts in the value are.** -/
theorem Value.IsJson.whole_iff {v : Value} (h : v.IsJson) {around : List Nat} {level : Nat}
    {text : String} (hv : writeWithin .canonical around level v = .ok text) :
    Whole text ↔ ∀ t ∈ v.texts, Whole t := by
  have hbrackets : Whole "[" ∧ Whole "]" ∧ Whole "\x7b" ∧ Whole "\x7d" :=
    ⟨whole_of_ascii (by decide), whole_of_ascii (by decide), whole_of_ascii (by decide),
      whole_of_ascii (by decide)⟩
  -- By induction on the data; brackets, commas and colons are whole anyway.
  induction h generalizing level text with
  | @scalar v hscalar =>
    rw [hscalar.writeWithin_eq] at hv
    rcases scalar_cases hv with ⟨s, rfl, rfl⟩ | ⟨-, hplain⟩
    · simp [Value.texts, whole_quote_iff]
    · have hwhole := whole_of_plain hplain
      cases v with
      | null | bool | int | float => simp [Value.texts, hwhole]
      | str s =>
        obtain rfl := Except.ok.inj hv
        simp [Value.texts, whole_quote_iff]
      | bytes | date | timestamp | list | tuple | set | map | placed | endless => cases hscalar
  | @list items _ ih =>
    rw [writeWithin] at hv
    obtain ⟨texts, htexts, hv⟩ := bind_eq_ok.mp hv
    obtain rfl := pure_eq_ok.mp hv
    have hitems := writeItems_eq_ok.mp htexts
    rw [whole_enclose_iff hbrackets.1 hbrackets.2.1]
    constructor
    · intro h t ht
      obtain ⟨v, hv, ht⟩ := mem_texts_list.mp ht
      obtain ⟨part, hpart, hwritten⟩ := exists_right_of_mem hitems hv
      exact (ih v hv hwritten).mp (h part hpart) t ht
    · intro h part hpart
      obtain ⟨v, hv, hwritten⟩ := exists_left_of_mem hitems hpart
      exact (ih v hv hwritten).mpr fun t ht => h t (mem_texts_list.mpr ⟨v, hv, ht⟩)
  | @fields fields _ _ ih =>
    obtain ⟨written, rfl, -, hparts, hlines⟩ := exists_written_of_ofFields hv
    have hcolon : Whole ":" := whole_of_ascii (by decide)
    rw [whole_enclose_iff hbrackets.2.2.1 hbrackets.2.2.2]
    constructor
    · intro h t ht
      obtain ⟨field, hfield, ht⟩ := mem_texts_ofFields.mp ht
      obtain ⟨part, hpart, hline⟩ := hparts field.1 field.2 hfield
      have hwhole := h _ hline
      rw [whole_append, whole_append, whole_quote_iff] at hwhole
      rcases ht with rfl | ht
      · exact hwhole.1.1
      · exact (ih field hfield hpart).mp hwhole.2 t ht
    · intro h line hline
      obtain ⟨k, v, part, hmem, hpart, rfl⟩ := hlines line hline
      rw [whole_append, whole_append, whole_quote_iff]
      refine ⟨⟨h k (mem_texts_ofFields.mpr ⟨_, hmem, .inl rfl⟩), hcolon⟩, ?_⟩
      exact (ih (k, v) hmem hpart).mpr fun t ht =>
        h t (mem_texts_ofFields.mpr ⟨_, hmem, .inr ht⟩)

/-! ### Records without their names -/

/-- A record without the field that holds its name. -/
def unnamedRecord (nameField : Option String) (fields : List (String × Value)) : Value :=
  .ofFields (fields.filter fun field => some field.1 != nameField)

/-- A record is found by the canonical text of what is left of it. -/
theorem structuralText_ofFields (nameField : Option String) (fields : List (String × Value)) :
    structuralText nameField (.ofFields fields) =
      (canonicalText (unnamedRecord nameField fields)).bind wholeText := by
  have hleft : withoutField nameField (fields.map fun field => (Value.str field.1, field.2)) =
      (fields.filter fun field => some field.1 != nameField).map
        fun field => (Value.str field.1, field.2) := by
    cases nameField with
    | none =>
      rw [withoutField, List.filter_eq_self.mpr]
      exact fun _ _ => rfl
    | some name =>
      rw [withoutField, List.filter_map]
      congr 2
  show (canonicalText (.map (withoutField nameField _))).bind wholeText = _
  rw [hleft]
  rfl

/-- A text is kept for storage if and only if it is whole. -/
theorem wholeText_eq_ok_iff {s t : String} : wholeText s = .ok t ↔ s = t ∧ Whole s := by
  constructor
  · intro h
    have hwhole := whole_of_wholeText h
    exact ⟨Except.ok.inj ((wholeText_eq_ok hwhole).symm.trans h), hwhole⟩
  · rintro ⟨rfl, hwhole⟩
    exact wholeText_eq_ok hwhole

/-- So the text of a record is the canonical text of what is left, if that has a form in UTF-8. -/
theorem structuralText_eq_ok {nameField : Option String} {fields : List (String × Value)}
    {text : String} : structuralText nameField (.ofFields fields) = .ok text ↔
      canonicalText (unnamedRecord nameField fields) = .ok text ∧ Whole text := by
  rw [structuralText_ofFields, bind_eq_ok']
  simp only [wholeText_eq_ok_iff]
  constructor
  · rintro ⟨text', htext, rfl, hwhole⟩
    exact ⟨htext, hwhole⟩
  · rintro ⟨htext, hwhole⟩
    exact ⟨text, htext, rfl, hwhole⟩

/-- What is left of a value of JSON is one. -/
theorem isJson_unnamedRecord {fields : List (String × Value)} (h : (Value.ofFields fields).IsJson)
    (nameField : Option String) : (unnamedRecord nameField fields).IsJson := by
  generalize hv : Value.ofFields fields = v at h
  cases h with
  | scalar hscalar =>
    subst hv
    cases hscalar
  | list => cases hv
  | @fields fs nodup each =>
    -- Fields are told apart by what is written of them, so the mapping has these fields.
    have hinj : Function.Injective fun field : String × Value => (Value.str field.1, field.2) :=
      fun a b hab => by
        obtain ⟨hkey, hvalue⟩ := Prod.mk.inj hab
        exact Prod.ext (Value.str.inj hkey) hvalue
    obtain rfl := List.map_injective_iff.mpr hinj (Value.map.inj hv)
    refine .fields (nodup.sublist (List.filter_sublist.map _)) fun field hfield => ?_
    exact each field (List.mem_filter.mp hfield).1

/-! ### What canonical texts and structural keys tell -/

/-- Values of JSON have one text if and only if they are equal up to the order of keys. -/
theorem Value.IsJson.text_eq_iff {v w : Value} (hv : v.IsJson) (hw : w.IsJson) {text text' : String}
    (htext : canonicalText v = .ok text) (htext' : canonicalText w = .ok text') :
    text = text' ↔ v.Same w := by
  constructor
  · rintro rfl
    exact hv.same hw ⟨_, _, _, _, text, htext, htext'⟩
  · exact fun hsame => hsame.text_eq htext htext'

/-- A record has a structural key if and only if what is left of it has a text, and all its texts
    have a form in UTF-8. -/
theorem exists_structuralKey_iff {nameField : Option String} {fields : List (String × Value)}
    (h : (Value.ofFields fields).IsJson) :
    (∃ key, structuralKey nameField (.ofFields fields) = .ok key) ↔
      (unnamedRecord nameField fields).isShown = true ∧
        ∀ t ∈ (unnamedRecord nameField fields).texts, Whole t := by
  have hleft := isJson_unnamedRecord h nameField
  -- What is left has a text if it can be shown, and the text has a form in UTF-8 if all texts in it
  -- have.
  constructor
  · rintro ⟨key, hkey⟩
    obtain ⟨text, htext, -⟩ := map_eq_ok.mp hkey
    obtain ⟨htext, hwhole⟩ := structuralText_eq_ok.mp htext
    exact ⟨(hleft.writes_iff [] 0 []).mp ⟨text, htext⟩, (hleft.whole_iff htext).mp hwhole⟩
  · rintro ⟨hshown, htexts⟩
    obtain ⟨text, htext⟩ := (hleft.writes_iff [] 0 []).mpr hshown
    have hwhole := (hleft.whole_iff htext).mpr htexts
    exact ⟨Digest.sha256Hex text,
      map_eq_ok.mpr ⟨text, structuralText_eq_ok.mpr ⟨htext, hwhole⟩, rfl⟩⟩

/-- **Canonical texts and structural keys are exact.**  A value of JSON has a canonical text if and
    only if no whole number in it has too many digits, and two texts are the same if and only if the
    values are equal up to the order of keys.

    A record has a structural key if and only if what is left of it without the field of its name
    has such a text with a form in UTF-8.  As long as digests tell the texts of two records apart,
    their keys are the same if and only if what is left of them is equal up to the order of keys. -/
theorem canonical_exact :
    (∀ v w : Value, v.IsJson → w.IsJson →
      ((∃ text, canonicalText v = .ok text) ↔ v.isShown = true) ∧
      ∀ text text', canonicalText v = .ok text → canonicalText w = .ok text' →
        (text = text' ↔ v.Same w)) ∧
    ∀ (nameField : Option String) (fs gs : List (String × Value)),
      (Value.ofFields fs).IsJson → (Value.ofFields gs).IsJson →
      Separates (fun text => structuralText nameField (.ofFields fs) = .ok text ∨
        structuralText nameField (.ofFields gs) = .ok text) →
      ((∃ key, structuralKey nameField (.ofFields fs) = .ok key) ↔
        (unnamedRecord nameField fs).isShown = true ∧
          ∀ t ∈ (unnamedRecord nameField fs).texts, Whole t) ∧
      ∀ key key', structuralKey nameField (.ofFields fs) = .ok key →
        structuralKey nameField (.ofFields gs) = .ok key' →
        (key = key' ↔ (unnamedRecord nameField fs).Same (unnamedRecord nameField gs)) := by
  constructor
  · intro v w hv hw
    exact ⟨hv.writes_iff [] 0 [], fun text text' htext htext' => hv.text_eq_iff hw htext htext'⟩
  · intro nameField fs gs hfs hgs hdigests
    refine ⟨exists_structuralKey_iff hfs, fun key key' hkey hkey' => ?_⟩
    obtain ⟨text, htext, rfl⟩ := map_eq_ok.mp hkey
    obtain ⟨text', htext', rfl⟩ := map_eq_ok.mp hkey'
    -- the digests are the same if and only if the texts are
    have hdigest : Digest.sha256Hex text = Digest.sha256Hex text' ↔ text = text' :=
      ⟨hdigests text text' (.inl htext) (.inr htext'), fun heq => congrArg _ heq⟩
    rw [hdigest]
    exact (isJson_unnamedRecord hfs nameField).text_eq_iff (isJson_unnamedRecord hgs nameField)
      (structuralText_eq_ok.mp htext).1 (structuralText_eq_ok.mp htext').1

/-- A record with a name, numbers of both kinds, and a part that has a name as well. -/
def namedRecord : List (String × Value) :=
  [("name", .str "train"), ("args", .list [.int 1, .float 1.5, .bool true, .null, .str "1"]),
    ("part", .ofFields [("name", .str "é"), ("image", .str "a")])]

/-- The same record under another name, its fields in another order. -/
def renamedRecord : List (String × Value) :=
  [("part", .ofFields [("image", .str "a"), ("name", .str "é")]), ("name", .str "train-2"),
    ("args", .list [.int 1, .float 1.5, .bool true, .null, .str "1"])]

/-- The parts of both records that are lists or records themselves are values of JSON. -/
theorem namedRecord_parts :
    (Value.list [.int 1, .float 1.5, .bool true, .null, .str "1"]).IsJson ∧
      ∀ fields : List (String × Value), (Keyed.keys fields).Nodup →
        (∀ field ∈ fields, field.2.IsScalar) → (Value.ofFields fields).IsJson := by
  refine ⟨.list fun v hv => ?_, fun fields hnodup h => .fields hnodup fun field hfield =>
    .scalar (h field hfield)⟩
  simp only [List.mem_cons, List.not_mem_nil, or_false] at hv
  rcases hv with rfl | rfl | rfl | rfl | rfl
  · exact .scalar trivial
  · exact .scalar ⟨by decide, by decide⟩
  · exact .scalar trivial
  · exact .scalar trivial
  · exact .scalar trivial

/-- The first record is a value of JSON. -/
theorem namedRecord_isJson : (Value.ofFields namedRecord).IsJson := by
  refine .fields (by decide) fun field hfield => ?_
  simp only [namedRecord, List.mem_cons, List.not_mem_nil, or_false] at hfield
  rcases hfield with rfl | rfl | rfl
  · exact .scalar trivial
  · exact namedRecord_parts.1
  · exact namedRecord_parts.2 _ (by decide) (by simp [Value.IsScalar])

/-- So is the second one. -/
theorem renamedRecord_isJson : (Value.ofFields renamedRecord).IsJson := by
  refine .fields (by decide) fun field hfield => ?_
  simp only [renamedRecord, List.mem_cons, List.not_mem_nil, or_false] at hfield
  rcases hfield with rfl | rfl | rfl
  · exact namedRecord_parts.2 _ (by decide) (by simp [Value.IsScalar])
  · exact .scalar trivial
  · exact namedRecord_parts.1

/-- Without their names they are the same, up to the order of keys. -/
theorem namedRecord_same : (unnamedRecord (some "name") namedRecord).Same
    (unnamedRecord (some "name") renamedRecord) := by
  refine .fields (by decide) fun k v w hv hw => ?_
  simp [namedRecord, renamedRecord] at hv hw
  rcases hv with ⟨rfl, rfl⟩ | ⟨rfl, rfl⟩
  · obtain rfl : w = _ := by simpa using hw
    exact .refl _
  · obtain rfl : w = _ := by simpa using hw
    -- the part has both of its fields in either record
    refine .fields (by decide) fun k v w hv hw => ?_
    simp at hv hw
    rcases hv with ⟨rfl, rfl⟩ | ⟨rfl, rfl⟩
    · obtain rfl : w = _ := by simpa using hw
      exact .refl _
    · obtain rfl : w = _ := by simpa using hw
      exact .refl _

/-- The two records have one key, and the number one has another text than the truth value. -/
theorem namedRecord_exact :
    (Value.ofFields namedRecord).IsJson ∧ (Value.ofFields renamedRecord).IsJson ∧
    Separates (fun text => structuralText (some "name") (.ofFields namedRecord) = .ok text ∨
      structuralText (some "name") (.ofFields renamedRecord) = .ok text) ∧
    (∃ key, structuralKey (some "name") (.ofFields namedRecord) = .ok key ∧
      structuralKey (some "name") (.ofFields renamedRecord) = .ok key) ∧
    ∃ text text', canonicalText (.int 1) = .ok text ∧ canonicalText (.bool true) = .ok text' ∧
      text ≠ text' := by
  -- the two texts are one, so nothing is asked of the digests
  have hdigests : Separates (fun text => structuralText (some "name") (.ofFields namedRecord) =
      .ok text ∨ structuralText (some "name") (.ofFields renamedRecord) = .ok text) := by
    intro a b ha hb _
    simp only [structuralText_eq_ok] at ha hb
    rcases ha with ha | ha
    · rcases hb with hb | hb
      · exact (Value.Same.refl _).text_eq ha.1 hb.1
      · exact namedRecord_same.text_eq ha.1 hb.1
    · rcases hb with hb | hb
      · exact (namedRecord_same.text_eq hb.1 ha.1).symm
      · exact (Value.Same.refl _).text_eq ha.1 hb.1
  have hdigests' : Separates (fun text => structuralText (some "name") (.ofFields renamedRecord) =
      .ok text ∨ structuralText (some "name") (.ofFields namedRecord) = .ok text) :=
    fun a b ha hb => hdigests a b ha.symm hb.symm
  obtain ⟨hexists, hkeys⟩ :=
    canonical_exact.2 (some "name") _ _ namedRecord_isJson renamedRecord_isJson hdigests
  obtain ⟨hexists', -⟩ :=
    canonical_exact.2 (some "name") _ _ renamedRecord_isJson namedRecord_isJson hdigests'
  obtain ⟨key, hkey⟩ := hexists.mpr (by decide +kernel)
  obtain ⟨key', hkey'⟩ := hexists'.mpr (by decide +kernel)
  obtain rfl := (hkeys key key' hkey hkey').mpr namedRecord_same
  have hone := canonical_exact.1 (.int 1) (.bool true) (.scalar trivial) (.scalar trivial)
  have htrue := canonical_exact.1 (.bool true) (.int 1) (.scalar trivial) (.scalar trivial)
  obtain ⟨text, htext⟩ := hone.1.mpr (by decide +kernel)
  obtain ⟨text', htext'⟩ := htrue.1.mpr rfl
  refine ⟨namedRecord_isJson, renamedRecord_isJson, hdigests, ⟨key, hkey, hkey'⟩, text, text',
    htext, htext', ?_⟩
  intro heq
  cases (hone.2 text text' htext htext').mp heq

end PipelineCompiler
