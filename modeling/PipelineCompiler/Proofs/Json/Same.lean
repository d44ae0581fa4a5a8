import Mathlib.Data.List.Perm.Basic
import Mathlib.Data.String.Basic
import PipelineCompiler.Proofs.Json.Alike

namespace PipelineCompiler

/-!
# Equal data

Two records are equal when they have the same fields with equal values, in whatever order the fields
were written.

* `Value.Same` — equal data, wherever it was written;
* `Value.Same.text_eq` — equal data has one canonical text;
* `Value.Textual` — data that is made of texts, lists and mappings;
* `Value.Textual.same` — such data is equal when it has one canonical text.

So for such data the canonical text tells exactly what is equal.
-/

open Json

/-- Equal data.  The order of the fields of a mapping does not matter, nor do the places that values
    carry. -/
inductive Value.Same : Value → Value → Prop
  | refl (v : Value) : Same v v
  | list {items items' : List Value} (length : items.length = items'.length)
      (each : ∀ pair ∈ items.zip items', Same pair.1 pair.2) : Same (.list items) (.list items')
  | fields {fs gs : List (String × Value)} (keys : (Keyed.keys fs).Perm (Keyed.keys gs))
      (each : ∀ k v w, (k, v) ∈ fs → (k, w) ∈ gs → Same v w) :
        Same (.ofFields fs) (.ofFields gs)
  | placed {place : Nat} {v w : Value} (same : Same v w) : Same (.placed place v) w
  | besidePlaced {place : Nat} {v w : Value} (same : Same v w) : Same v (.placed place w)

/-! ### One text for each value -/

/-- A canonical text has no line breaks, at whatever level it stands. -/
theorem enclose_level (level level' : Nat) (opening closing : String) (items : List String) :
    Style.canonical.enclose level opening closing items
      = Style.canonical.enclose level' opening closing items := rfl

/-- **A value has one canonical text**, wherever it stands. -/
theorem writeWithin_unique (around : List Nat) (level : Nat) (v : Value) :
    ∀ around' level' text text', writeWithin .canonical around level v = .ok text →
      writeWithin .canonical around' level' v = .ok text' → text = text' := by
  -- the induction follows the writer: values, entries of mappings, items of lists
  refine writeWithin.induct
    (fun around level v => ∀ around' level' text text',
      writeWithin .canonical around level v = .ok text →
      writeWithin .canonical around' level' v = .ok text' → text = text')
    (fun around level entries => ∀ around' level' written written',
      writeEntries .canonical around level entries = .ok written →
      writeEntries .canonical around' level' entries = .ok written' → written = written')
    (fun around level items => ∀ around' level' texts texts',
      writeItems .canonical around level items = .ok texts →
      writeItems .canonical around' level' items = .ok texts' → texts = texts')
    ?list ?tuple ?map ?inside ?placed ?scalar ?noItems ?item ?noEntries ?entry around level v
  case list | tuple =>
    intro around level items ih around' level' text text' h h'
    rw [writeWithin] at h h'
    obtain ⟨texts, htexts, h⟩ := bind_eq_ok.mp h
    obtain ⟨texts', htexts', h'⟩ := bind_eq_ok.mp h'
    obtain rfl := ih _ _ _ _ htexts htexts'
    rw [← pure_eq_ok.mp h, ← pure_eq_ok.mp h', enclose_level level level']
  case map =>
    intro around level entries ih around' level' text text' h h'
    rw [writeWithin] at h h'
    obtain ⟨written, hwritten, h⟩ := bind_eq_ok.mp h
    obtain ⟨written', hwritten', h'⟩ := bind_eq_ok.mp h'
    obtain rfl := ih _ _ _ _ hwritten hwritten'
    obtain ⟨arranged, harranged, h⟩ := bind_eq_ok.mp h
    obtain ⟨arranged', harranged', h'⟩ := bind_eq_ok.mp h'
    obtain rfl := Except.ok.inj (harranged.symm.trans harranged')
    rw [← pure_eq_ok.mp h, ← pure_eq_ok.mp h', enclose_level level level']
  case inside =>
    intro around level place v hmem around' level' text text' h
    rw [writeWithin, if_pos hmem] at h
    cases h
  case placed =>
    intro around level place v hmem ih around' level' text text' h h'
    rw [writeWithin, if_neg hmem] at h
    rw [writeWithin] at h'
    split at h'
    · cases h'
    · exact ih _ _ _ _ h h'
  case scalar =>
    intro around level v hlist htuple hmap hplaced around' level' text text' h h'
    rw [writeWithin.eq_5 _ _ _ v hlist htuple hmap hplaced] at h h'
    exact Except.ok.inj (h.symm.trans h')
  case noItems =>
    intro around level around' level' texts texts' h h'
    exact (Except.ok.inj h).symm.trans (Except.ok.inj h')
  case item =>
    intro around level item rest ih ihrest around' level' texts texts' h h'
    rw [writeItems] at h h'
    obtain ⟨text, htext, h⟩ := bind_eq_ok.mp h
    obtain ⟨others, hothers, h⟩ := bind_eq_ok.mp h
    obtain ⟨text', htext', h'⟩ := bind_eq_ok.mp h'
    obtain ⟨others', hothers', h'⟩ := bind_eq_ok.mp h'
    rw [← pure_eq_ok.mp h, ← pure_eq_ok.mp h', ih _ _ _ _ htext htext',
      ihrest _ _ _ _ hothers hothers']
  case noEntries =>
    intro around level around' level' written written' h h'
    exact (Except.ok.inj h).symm.trans (Except.ok.inj h')
  case entry =>
    intro around level name value rest ih ihrest around' level' written written' h h'
    rw [writeEntries] at h h'
    obtain ⟨keyText, hkey, h⟩ := bind_eq_ok.mp h
    obtain ⟨text, htext, h⟩ := bind_eq_ok.mp h
    obtain ⟨others, hothers, h⟩ := bind_eq_ok.mp h
    obtain ⟨keyText', hkey', h'⟩ := bind_eq_ok.mp h'
    obtain ⟨text', htext', h'⟩ := bind_eq_ok.mp h'
    obtain ⟨others', hothers', h'⟩ := bind_eq_ok.mp h'
    obtain rfl := Except.ok.inj (hkey.symm.trans hkey')
    rw [← pure_eq_ok.mp h, ← pure_eq_ok.mp h', ih _ _ _ _ htext htext',
      ihrest _ _ _ _ hothers hothers']

/-! ### One order for keys -/

variable {α β : Type} {key : α → Value}

/-- Elements with text keys stand in order. -/
def AtMost (key : α → Value) (x y : α) : Prop :=
  ∃ s t, key x = .str s ∧ key y = .str t ∧ Text.codes s ≤ Text.codes t

/-- An element is put among others in order. -/
theorem ascending_insertOn? {x : α} {xs ys : List α} (hx : ∃ s, key x = .str s)
    (hxs : ∀ y ∈ xs, ∃ t, key y = .str t) (hsorted : xs.Pairwise (AtMost key))
    (h : Value.insertOn? key x xs = some ys) : ys.Pairwise (AtMost key) := by
  -- By induction on the list; the element goes before the first one that is greater.
  induction xs generalizing ys with
  | nil =>
    obtain rfl := Option.some.inj h
    exact List.pairwise_singleton _ _
  | cons y rest ih =>
    obtain ⟨s, hs⟩ := hx
    obtain ⟨t, ht⟩ := hxs y List.mem_cons_self
    have hless : Value.less? (key x) (key y) = some (decide (Text.codes s < Text.codes t)) := by
      rw [hs, ht]
      rfl
    obtain ⟨hy, hrest⟩ := List.pairwise_cons.mp hsorted
    rw [Value.insertOn?, hless] at h
    by_cases hst : Text.codes s < Text.codes t
    · obtain rfl : x :: y :: rest = ys := by simpa [hst] using h
      refine List.pairwise_cons.mpr ⟨fun z hz => ?_, hsorted⟩
      rcases List.mem_cons.mp hz with rfl | hz
      · exact ⟨s, t, hs, ht, hst.le⟩
      · obtain ⟨t', u, ht', hu, htu⟩ := hy z hz
        obtain rfl := Value.str.inj (ht.symm.trans ht')
        exact ⟨s, u, hs, hu, hst.le.trans htu⟩
    · obtain ⟨zs, hzs, rfl⟩ : ∃ zs, Value.insertOn? key x rest = some zs ∧
        y :: zs = ys := by
        simpa [hst, Option.bind_eq_some_iff] using h
      refine List.pairwise_cons.mpr ⟨fun z hz => ?_,
        ih (fun z hz => hxs z (List.mem_cons_of_mem _ hz)) hrest hzs⟩
      rcases List.mem_cons.mp ((perm_insertOn hzs).subset hz) with rfl | hz
      · exact ⟨t, s, ht, hs, not_lt.mp hst⟩
      · exact hy z hz

/-- **Elements with text keys are put in order.** -/
theorem ascending_sortOn? {xs ys : List α} (hxs : ∀ x ∈ xs, ∃ s, key x = .str s)
    (h : Value.sortOn? key xs = some ys) : ys.Pairwise (AtMost key) := by
  suffices hfrom : ∀ sorted : List α, (∀ x ∈ sorted, ∃ s, key x = .str s) →
      sorted.Pairwise (AtMost key) →
      xs.foldlM (fun sorted x => Value.insertOn? key x sorted) sorted = some ys →
      ys.Pairwise (AtMost key) from hfrom [] (fun _ hx => nomatch hx) .nil h
  clear h
  -- By induction on what is left to be put in order.
  induction xs with
  | nil =>
    intro sorted _ hsorted h
    obtain rfl := Option.some.inj h
    exact hsorted
  | cons x xs ih =>
    intro sorted hkeys hsorted h
    have hx := hxs x List.mem_cons_self
    rw [List.foldlM_cons, Option.bind_eq_bind, Option.bind_eq_some_iff] at h
    obtain ⟨next, hnext, h⟩ := h
    refine ih (fun y hy => hxs y (List.mem_cons_of_mem _ hy)) next (fun y hy => ?_)
      (ascending_insertOn? hx hkeys hsorted hnext) h
    rcases List.mem_cons.mp ((perm_insertOn hnext).subset hy) with rfl | hy
    · exact hx
    · exact hkeys y hy

/-- Lists are the same up to their order when what they are mapped to is, and tells them apart. -/
theorem perm_of_map {f : α → β} {xs ys : List α} (h : (xs.map f).Perm (ys.map f))
    (hinj : ∀ x ∈ xs, ∀ y ∈ ys, f x = f y → x = y) : xs.Perm ys := by
  induction ys generalizing xs with
  | nil =>
    have hnil := List.map_eq_nil_iff.mp h.eq_nil
    rw [hnil]
  | cons y ys ih =>
    obtain ⟨x, hx, heq⟩ := List.mem_map.mp (h.symm.subset List.mem_cons_self)
    obtain rfl := hinj x hx y List.mem_cons_self heq
    obtain ⟨before, after, rfl⟩ := List.append_of_mem hx
    have hmid : (before ++ x :: after).Perm (x :: (before ++ after)) := List.perm_middle
    have hrest : ((before ++ after).map f).Perm (ys.map f) :=
      List.Perm.cons_inv ((hmid.map f).symm.trans h)
    exact hmid.trans ((ih hrest fun z hz w hw =>
      hinj z (hmid.symm.subset (List.mem_cons_of_mem _ hz)) w (List.mem_cons_of_mem _ hw)).cons x)

/-- **The canonical order of written entries does not depend on the order they were in**, when the
    keys are texts and tell the entries apart. -/
theorem arrange_unique {written written' arranged arranged' : List (Value × String)}
    (htext : ∀ entry ∈ written, ∃ s, entry.1 = .str s)
    (hkeys : (written.map (·.1)).Perm (written'.map (·.1)))
    (hinj : ∀ entry ∈ written, ∀ entry' ∈ written', entry.1 = entry'.1 → entry = entry')
    (h : Style.canonical.arrange written = .ok arranged)
    (h' : Style.canonical.arrange written' = .ok arranged') : arranged = arranged' := by
  -- Both arrangements are in order and have the same entries, and different entries have different
  -- keys.
  have hperm := perm_of_map hkeys hinj
  have hsorted : ∀ {ws as : List (Value × String)},
    (∀ entry ∈ ws, ∃ s, entry.1 = .str s) →
      Style.canonical.arrange ws = .ok as → as.Pairwise (AtMost (·.1)) := by
    intro ws as hws has
    unfold Style.arrange at has
    rw [if_pos (show Style.canonical.sorted = true from rfl)] at has
    split at has
    next sorted hsorted =>
      obtain rfl := Except.ok.inj has
      exact ascending_sortOn? hws hsorted
    next => cases has
  refine List.Perm.eq_of_pairwise (fun a b ha hb hab hba => ?_) (hsorted htext h)
    (hsorted (fun entry hentry => htext entry (hperm.symm.subset hentry)) h')
    (((perm_arrange h).trans hperm).trans (perm_arrange h').symm)
  obtain ⟨s, t, hs, ht, hst⟩ := hab
  obtain ⟨t', s', ht', hs', hts⟩ := hba
  obtain rfl := Value.str.inj (hs.symm.trans hs')
  obtain rfl := Value.str.inj (ht.symm.trans ht')
  exact hinj a ((perm_arrange h).subset ha) b ((perm_arrange h').subset hb)
    (hs.trans (Text.codes_injective (le_antisymm hst hts) ▸ ht.symm))

/-! ### Equal data has one text -/

/-- The written entries of a mapping with text keys have these keys. -/
theorem keys_of_writeEntries {around : List Nat} {level : Nat} {fields : List (String × Value)}
    {written : List (Value × String)} (h : writeEntries .canonical around level
      (fields.map fun field => (Value.str field.1, field.2)) = .ok written) :
    written.map (·.1) = (Keyed.keys fields).map .str ∧ ∀ entry ∈ written, ∃ k v text,
      (k, v) ∈ fields ∧ writeWithin .canonical around level v = .ok text ∧
        entry = (.str k, quote k ++ ":" ++ text) := by
  rw [writeEntries_eq_ok, List.forall₂_map_left_iff] at h
  -- Field by field: the key is the quoted name, which is a text.
  have heach : List.Forall₂ (fun field entry => ∃ text,
      writeWithin .canonical around level field.2 = .ok text ∧
        entry = (Value.str field.1, quote field.1 ++ ":" ++ text)) fields written := by
    refine h.imp fun field entry hentry => ?_
    obtain ⟨keyText, text, hkey, htext, rfl⟩ := hentry
    obtain rfl : quote field.1 = keyText := Except.ok.inj hkey
    exact ⟨text, htext, rfl⟩
  constructor
  · clear h
    induction heach with
    | nil => rfl
    | cons hentry _ ih =>
      obtain ⟨text, -, rfl⟩ := hentry
      rw [List.map_cons, ih]
      rfl
  · intro entry hentry
    obtain ⟨⟨k, v⟩, hfield, text, htext, rfl⟩ := exists_left_of_mem heach hentry
    exact ⟨k, v, text, hfield, htext, rfl⟩

/-- What belongs to the elements of two lists is the same when that is so one by one. -/
theorem eq_of_forall₂ {γ : Type} {R : α → γ → Prop} {S : β → γ → Prop}
    {xs : List α} {ys : List β}
    {ts us : List γ} (hxs : List.Forall₂ R xs ts) (hys : List.Forall₂ S ys us)
    (h : List.Forall₂ (fun x y => ∀ t u, R x t → S y u → t = u) xs ys) : ts = us := by
  induction h generalizing ts us with
  | nil =>
    cases hxs
    cases hys
    rfl
  | cons hpair _ ih =>
    cases hxs with
    | cons hfirst hrest =>
      cases hys with
      | cons hfirst' hrest' => rw [hpair _ _ hfirst hfirst', ih hrest hrest']

/-- Mappings with the same keys are written alike when their values are, in whatever order the
    fields were. -/
theorem writeWithin_ofFields_unique {fs gs : List (String × Value)}
    {around around' : List Nat} {level level' : Nat} {text text' : String}
    (keys : (Keyed.keys fs).Perm (Keyed.keys gs))
    (each : ∀ k v w, (k, v) ∈ fs → (k, w) ∈ gs → ∀ part part',
      writeWithin .canonical around (level + 1) v = .ok part →
      writeWithin .canonical around' (level' + 1) w = .ok part' → part = part')
    (h : writeWithin .canonical around level (.ofFields fs) = .ok text)
    (h' : writeWithin .canonical around' level' (.ofFields gs) = .ok text') : text = text' := by
  rw [Value.ofFields, writeWithin] at h h'
  obtain ⟨written, hwritten, h⟩ := bind_eq_ok.mp h
  obtain ⟨arranged, harranged, h⟩ := bind_eq_ok.mp h
  obtain ⟨written', hwritten', h'⟩ := bind_eq_ok.mp h'
  obtain ⟨arranged', harranged', h'⟩ := bind_eq_ok.mp h'
  obtain ⟨hkeys, hentries⟩ := keys_of_writeEntries hwritten
  obtain ⟨hkeys', hentries'⟩ := keys_of_writeEntries hwritten'
  have htext : ∀ entry ∈ written, ∃ k, entry.1 = .str k := by
    intro entry hentry
    obtain ⟨k, v, part, -, -, rfl⟩ := hentries entry hentry
    exact ⟨k, rfl⟩
  have hperm : (written.map (·.1)).Perm (written'.map (·.1)) := by
    rw [hkeys, hkeys']
    exact keys.map _
  -- entries with one key are written alike, because their values are
  have hinj : ∀ entry ∈ written, ∀ entry' ∈ written', entry.1 = entry'.1 →
    entry = entry' := by
    intro entry hentry entry' hentry' heq
    obtain ⟨k, v, part, hmem, hpart, rfl⟩ := hentries entry hentry
    obtain ⟨k', w, part', hmem', hpart', rfl⟩ := hentries' entry' hentry'
    obtain rfl := Value.str.inj heq
    rw [each k v w hmem hmem' part part' hpart hpart']
  obtain rfl := arrange_unique htext hperm hinj harranged harranged'
  rw [← pure_eq_ok.mp h, ← pure_eq_ok.mp h', enclose_level level level']

/-- **Equal data has one canonical text.** -/
theorem Value.Same.text_eq {v w : Value} (h : v.Same w) :
    ∀ {around level around' level' text text'},
      writeWithin .canonical around level v = .ok text →
      writeWithin .canonical around' level' w = .ok text' → text = text' := by
  -- By induction on the likeness of the data.  Entries in another order end up in the same one.
  induction h with
  | refl v => exact fun hv hw => writeWithin_unique _ _ _ _ _ _ _ hv hw
  | @list items items' length each ih =>
    intro around level around' level' text text' hv hw
    rw [writeWithin] at hv hw
    obtain ⟨texts, htexts, hv⟩ := bind_eq_ok.mp hv
    obtain ⟨texts', htexts', hw⟩ := bind_eq_ok.mp hw
    rw [writeItems_eq_ok] at htexts htexts'
    have hitems : List.Forall₂ (fun a b => (a, b) ∈ items.zip items') items items' :=
      List.forall₂_iff_zip.mpr ⟨length, fun hmem => hmem⟩
    obtain rfl := eq_of_forall₂ htexts htexts'
      (hitems.imp fun a b hmem _ _ ha hb => ih (a, b) hmem ha hb)
    rw [← pure_eq_ok.mp hv, ← pure_eq_ok.mp hw, enclose_level level level']
  | @fields fs gs keys each ih =>
    exact fun hv hw => writeWithin_ofFields_unique keys
      (fun k v w hv hw _ _ htext htext' => ih k v w hv hw htext htext') hv hw
  | placed _ ih =>
    intro around level around' level' text text' hv hw
    rw [writeWithin] at hv
    split at hv
    · cases hv
    · exact ih hv hw
  | besidePlaced _ ih =>
    intro around level around' level' text text' hv hw
    rw [writeWithin] at hw
    split at hw
    · cases hw
    · exact ih hv hw

/-! ### What one text tells -/

/-- Data that is made of texts, lists, and mappings that have one value for each name. -/
inductive Value.Textual : Value → Prop
  | str (s : String) : Textual (.str s)
  | list {items : List Value} (each : ∀ v ∈ items, Textual v) : Textual (.list items)
  | fields {fields : List (String × Value)}
      (functional : ∀ k v w, (k, v) ∈ fields → (k, w) ∈ fields → v = w)
      (each : ∀ field ∈ fields, Textual field.2) : Textual (.ofFields fields)
  | placed {place : Nat} {v : Value} (textual : Textual v) : Textual (.placed place v)

/-- A list of texts is data of this kind. -/
theorem textual_ofTexts (texts : List String) : (Value.ofTexts texts).Textual := by
  refine .list fun v hv => ?_
  obtain ⟨t, -, rfl⟩ := List.mem_map.mp hv
  exact .str t

/-- So is a list of documents of this kind. -/
theorem textual_map {f : α → Value} {xs : List α} (h : ∀ x ∈ xs, (f x).Textual) :
    (Value.list (xs.map f)).Textual := by
  refine .list fun v hv => ?_
  obtain ⟨x, hx, rfl⟩ := List.mem_map.mp hv
  exact h x hx

/-- So is a mapping with different keys. -/
theorem textual_of_nodup {fields : List (String × Value)} (hnodup : (Keyed.keys fields).Nodup)
    (h : ∀ field ∈ fields, field.2.Textual) : (Value.ofFields fields).Textual := by
  refine .fields (fun k v w hv hw => ?_) h
  have hfind : Keyed.find? fields k = some v := Keyed.find?_of_mem hnodup hv
  exact Option.some.inj (hfind.symm.trans (Keyed.find?_of_mem hnodup hw))

/-- The text of a value does not show its place. -/
theorem alike_placed {place : Nat} {v w : Value} (h : Alike (.placed place v) w) : Alike v w := by
  obtain ⟨around, level, around', level', text, hv, hw⟩ := h
  rw [writeWithin] at hv
  split at hv
  · cases hv
  · exact ⟨_, _, _, _, text, hv, hw⟩

/-- The canonical texts of a value begin with a character. -/
def Starts (c : Char) (v : Value) : Prop :=
  ∀ around level text, writeWithin .canonical around level v = .ok text →
    ∃ rest, text.toList = c :: rest

/-- Texts begin with a quote. -/
theorem starts_str (s : String) : Starts '\x22' (.str s) := by
  intro around level text h
  obtain rfl : quote s = text := Except.ok.inj h
  exact ⟨_, toList_quote s⟩

/-- Lists begin with a bracket. -/
theorem starts_list (items : List Value) : Starts '[' (.list items) := by
  intro around level text h
  rw [writeWithin] at h
  obtain ⟨texts, -, h⟩ := bind_eq_ok.mp h
  obtain rfl := pure_eq_ok.mp h
  exact ⟨_, toList_enclose level _ _ _⟩

/-- So do tuples, which are written as lists. -/
theorem starts_tuple (items : List Value) : Starts '[' (.tuple items) := by
  intro around level text h
  rw [writeWithin] at h
  refine starts_list items around level text ?_
  rw [writeWithin]
  exact h

/-- Mappings begin with a brace. -/
theorem starts_map (entries : Value.Entries) : Starts '\x7b' (.map entries) := by
  intro around level text h
  rw [writeWithin] at h
  obtain ⟨written, -, h⟩ := bind_eq_ok.mp h
  obtain ⟨arranged, -, h⟩ := bind_eq_ok.mp h
  obtain rfl := pure_eq_ok.mp h
  exact ⟨_, toList_enclose level _ _ _⟩

/-- What is alike begins alike. -/
theorem Starts.eq {c d : Char} {v w : Value} (hv : Starts c v) (hw : Starts d w) (h : Alike v w) :
    c = d := by
  obtain ⟨around, level, around', level', text, htext, htext'⟩ := h
  obtain ⟨rest, hrest⟩ := hv _ _ _ htext
  obtain ⟨rest', hrest'⟩ := hw _ _ _ htext'
  exact (List.cons.inj (hrest.symm.trans hrest')).1

/-- Lists are the same when what they are mapped to is, and tells their elements apart. -/
theorem eq_of_map_eq {f : α → β} {xs ys : List α} (h : xs.map f = ys.map f)
    (hinj : ∀ x ∈ xs, ∀ y ∈ ys, f x = f y → x = y) : xs = ys := by
  induction xs generalizing ys with
  | nil => exact (List.map_eq_nil_iff.mp h.symm).symm
  | cons x xs ih =>
    cases ys with
    | nil => cases h
    | cons y ys =>
      obtain ⟨hxy, hrest⟩ := List.cons.inj h
      rw [hinj x List.mem_cons_self y List.mem_cons_self hxy,
        ih hrest fun z hz w hw => hinj z (List.mem_cons_of_mem _ hz) w (List.mem_cons_of_mem _ hw)]

/-- **Mappings that are alike have the same keys.** -/
theorem keys_perm_of_alike {fs gs : List (String × Value)}
    (h : Alike (.ofFields fs) (.ofFields gs)) : (Keyed.keys fs).Perm (Keyed.keys gs) := by
  obtain ⟨around, level, around', level', text, hf, hg⟩ := h
  rw [Value.ofFields, writeWithin] at hf hg
  obtain ⟨written, hwritten, hf⟩ := bind_eq_ok.mp hf
  obtain ⟨arranged, harranged, hf⟩ := bind_eq_ok.mp hf
  obtain ⟨written', hwritten', hg⟩ := bind_eq_ok.mp hg
  obtain ⟨arranged', harranged', hg⟩ := bind_eq_ok.mp hg
  have hperm := perm_arrange harranged
  have hperm' := perm_arrange harranged'
  obtain ⟨hkeys, hentries⟩ := keys_of_writeEntries hwritten
  obtain ⟨hkeys', hentries'⟩ := keys_of_writeEntries hwritten'
  have hitem : ∀ {fields : List (String × Value)} {ws as : List (Value × String)}
      {around : List Nat} {level : Nat}, as.Perm ws →
      (∀ entry ∈ ws, ∃ k v text, (k, v) ∈ fields ∧
        writeWithin .canonical around level v = .ok text ∧
        entry = (.str k, quote k ++ ":" ++ text)) →
      ∀ t ∈ as.map (·.2), IsItem t.toList := by
    intro fields ws as around level hperm hws t ht
    obtain ⟨entry, hentry, rfl⟩ := List.mem_map.mp ht
    obtain ⟨k, v, part, -, hpart, rfl⟩ := hws entry (hperm.subset hentry)
    exact item_entry k (item_of_writeWithin _ _ _ part hpart)
  have hlines := enclose_inj (.inr ⟨rfl, rfl⟩) (hitem hperm hentries) (hitem hperm' hentries')
    ((pure_eq_ok.mp hf).trans (pure_eq_ok.mp hg).symm)
  -- a line shows its key
  have hsame : arranged = arranged' := by
    refine eq_of_map_eq hlines fun entry hentry entry' hentry' heq => ?_
    obtain ⟨k, v, part, -, -, rfl⟩ := hentries entry (hperm.subset hentry)
    obtain ⟨k', v', part', -, -, rfl⟩ := hentries' entry' (hperm'.subset hentry')
    have hchars := congrArg String.toList heq
    simp only [String.toList_append, List.append_assoc] at hchars
    obtain ⟨rfl, -⟩ := quote_append_inj hchars
    exact Prod.ext rfl heq
  refine perm_of_map (f := Value.str) ?_ fun a _ b _ hab => Value.str.inj hab
  rw [← hkeys, ← hkeys']
  exact ((hperm.symm.map _).trans (hsame ▸ .refl _)).trans (hperm'.map _)

/-- **Data of this kind is equal when it is alike.** -/
theorem Value.Textual.same {v w : Value} (hv : v.Textual) (hw : w.Textual) (h : Alike v w) :
    v.Same w := by
  -- By induction on both sides.  The first character tells texts, lists and mappings apart, and
  -- places of shared values are looked through.
  induction hv generalizing w with
  | placed _ ih => exact .placed (ih hw (alike_placed h))
  | str s =>
    induction hw with
    | str t =>
      obtain rfl := alike_str h
      exact .refl _
    | list => exact absurd ((starts_str s).eq (starts_list _) h) (by decide)
    | fields => exact absurd ((starts_str s).eq (starts_map _) h) (by decide)
    | placed _ ih => exact .besidePlaced (ih (alike_placed h.symm).symm)
  | @list items _ ihItems =>
    induction hw with
    | str t => exact absurd ((starts_list items).eq (starts_str t) h) (by decide)
    | @list items' each =>
      obtain ⟨hlength, heach⟩ := List.forall₂_iff_zip.mp (alike_list h)
      exact .list hlength fun pair hpair => ihItems pair.1 (List.of_mem_zip hpair).1
        (each pair.2 (List.of_mem_zip hpair).2) (heach hpair)
    | fields => exact absurd ((starts_list items).eq (starts_map _) h) (by decide)
    | placed _ ih => exact .besidePlaced (ih (alike_placed h.symm).symm)
  | @fields fs _ _ ihFields =>
    induction hw with
    | str t => exact absurd ((starts_map _).eq (starts_str t) h) (by decide)
    | list => exact absurd ((starts_map _).eq (starts_list _) h) (by decide)
    | @fields gs functional each =>
      refine .fields (keys_perm_of_alike h) fun k v w hv hw => ?_
      exact ihFields (k, v) hv (each (k, w) hw)
        (alike_field h hv fun w' hw' => functional k w' w hw' hw)
    | placed _ ih => exact .besidePlaced (ih (alike_placed h.symm).symm)

/-- Of the values without parts only a text is alike to a text: numbers and words have no quotes. -/
theorem eq_str_of_alike {v : Value} {s : String} (hlist : ∀ items, v = .list items → False)
    (htuple : ∀ items, v = .tuple items → False)
    (hmap : ∀ entries, v = .map entries → False)
    (hplaced : ∀ place w, v = .placed place w → False) (h : Alike v (.str s)) : v = .str s := by
  obtain ⟨around, level, around', level', text, hv, hs⟩ := h
  obtain rfl : quote s = text := Except.ok.inj hs
  rw [writeWithin.eq_5 _ _ _ v hlist htuple hmap hplaced] at hv
  rcases scalar_cases hv with ⟨t, rfl, heq⟩ | ⟨-, hplain⟩
  · rw [quote_inj heq]
  · rw [toList_quote] at hplain
    exact absurd (hplain '\x22' List.mem_cons_self) (by decide)

/-- **Only a text is alike to a text**, whatever places it carries. -/
theorem textual_of_alike_str {v : Value} {s : String} (h : Alike v (.str s)) : v.Textual := by
  fun_induction Value.bare v with
  | case1 place v ih => exact .placed (ih (alike_placed h))
  | case2 v hplaced =>
    have hlist : ∀ items, v = .list items → False := by
      rintro items rfl
      exact absurd ((starts_list items).eq (starts_str s) h) (by decide)
    have htuple : ∀ items, v = .tuple items → False := by
      rintro items rfl
      exact absurd ((starts_tuple items).eq (starts_str s) h) (by decide)
    have hmap : ∀ entries, v = .map entries → False := by
      rintro entries rfl
      exact absurd ((starts_map entries).eq (starts_str s) h) (by decide)
    rw [eq_str_of_alike hlist htuple hmap hplaced h]
    exact .str s

end PipelineCompiler
