import PipelineCompiler.Naming.Registry
import PipelineCompiler.Proofs.Json.Alike
import PipelineCompiler.Proofs.Json.Same
import PipelineCompiler.Proofs.Keyed
import PipelineCompiler.Proofs.Naming.Fresh

namespace PipelineCompiler

/-!
# Registries that share equal parts

What the names of a registry stand for while parts are added to it:

* `Separates` — the assumption on digests: different texts with a property have different ones;
* `SameRecord` — parts whose records have one text;
* `Registry.Sound` — names are distinct and in use, and a key that is kept leads to a part with
  that key;
* `Registry.define_sound`, `Registry.intern_cases` — one lemma for each operation;
* `Registry.Stored` — what interning leaves, whether digests tell texts apart or not;
* `Registry.intern_spec`, `Registry.Shared` — what it leaves when they do;
* `Registry.Complete` — every part has its key, so that no part is there twice;
* `Registry.KeysDistinct` — every key is kept once, so that equal parts have one name;
* `Unnamed` — records that say nothing about names;
* `SameRecord.same`, `sameRecord_of_same` — where records are made of texts, parts are shared
  exactly when their records are equal;
* `Registry.Complete.different` — no two parts of a complete registry have equal records then.

`Registry.intern_spec` is what sharing rests on: the part that is found is not the part that was
asked for, only one whose record has the same text.
-/

/-- Different texts with a property have different digests. -/
def Separates (P : String → Prop) : Prop :=
  ∀ a b, P a → P b → Digest.sha256Hex a = Digest.sha256Hex b → a = b

/-- The digests that were taken in a computation tell its texts apart. -/
def Recorded.SeparatesDigests {α : Type} (x : Recorded α) : Prop := Separates (· ∈ x.digested)

/-- It is enough that all digests are different. -/
theorem separatesDigests_of_nodup {α : Type} {x : Recorded α}
    (h : (x.digested.map Digest.sha256Hex).Nodup) : x.SeparatesDigests :=
  fun _ _ ha hb heq => List.inj_on_of_nodup_map h ha hb heq

/-- Parts whose records have one text, their names aside. -/
def SameRecord {α : Type} (record : α → Value) (a b : α) : Prop :=
  ∃ text, structuralText (some "name") (record a) = .ok text ∧
    structuralText (some "name") (record b) = .ok text

/-- The names that were given to records. -/
def NameAllocator.keptNames (a : NameAllocator) : List String := Keyed.values a.byKey

namespace Registry

variable {α : Type} {P : String → Prop} {record : α → Value} {r r' : Registry α}

/-- The parts of a registry have different names, all of them in use and legal, and every key that
    is kept is the key of the part with its name. -/
structure Sound (P : String → Prop) (record : α → Value) (r : Registry α) : Prop where
  nodup : (Keyed.keys r.entries).Nodup
  used : ∀ name ∈ Keyed.keys r.entries, name ∈ r.names.used
  legal : ∀ name ∈ r.names.used, ∀ c ∈ name.toList, IsLegal c
  delimiter : ∀ c ∈ r.names.policy.delimiter.toList, IsLegal c
  unnamed : r.names.nameField = some "name"
  kept : ∀ entry ∈ r.names.byKey, ∃ part text, Keyed.find? r.entries entry.2 = some part ∧
    structuralText (some "name") (record part) = .ok text ∧ P text ∧
    entry.1 = Digest.sha256Hex text

/-- A registry without parts. -/
theorem sound_empty {policy : NamePolicy} (h : ∀ c ∈ policy.delimiter.toList, IsLegal c) :
    Sound P record (empty policy) where
  nodup := List.nodup_nil
  used := fun _ h => nomatch h
  legal := fun _ h => nomatch h
  delimiter := h
  unnamed := rfl
  kept := fun _ h => nomatch h

/-- Names that were given to records are in use. -/
theorem Sound.used_of_kept (h : Sound P record r) {name : String}
    (hname : name ∈ r.names.keptNames) : name ∈ r.names.used := by
  obtain ⟨entry, hentry, rfl⟩ := List.mem_map.mp hname
  obtain ⟨part, text, hfind, -⟩ := h.kept entry hentry
  exact h.used _ (Keyed.mem_keys_of_find? hfind)

/-! ### Registries that grow -/

/-- A registry after some operations: what was found is still found, names stay in use, and names
    are given to records only when they were not in use. -/
structure Grows (r r' : Registry α) : Prop where
  within : Keyed.Within r.entries r'.entries
  used : ∀ name ∈ r.names.used, name ∈ r'.names.used
  kept : ∀ name ∈ r'.names.keptNames, name ∈ r.names.keptNames ∨ name ∉ r.names.used
  policy : r'.names.policy = r.names.policy

/-- Nothing is done. -/
theorem Grows.refl (r : Registry α) : Grows r r :=
  ⟨.refl _, fun _ h => h, fun _ h => .inl h, rfl⟩

/-- Operations one after another. -/
theorem Grows.trans {r₁ r₂ r₃ : Registry α} (h : Grows r₁ r₂) (h' : Grows r₂ r₃) :
    Grows r₁ r₃ where
  within := h.within.trans h'.within
  used := fun name hname => h'.used name (h.used name hname)
  kept := by
    intro name hname
    rcases h'.kept name hname with hkept | hfree
    · exact h.kept name hkept
    · exact .inr fun hused => hfree (h.used name hused)
  policy := h'.policy.trans h.policy

/-- The parts of a registry that has grown are still in it. -/
theorem Grows.mem (h : Grows r r') (hnodup : (Keyed.keys r.entries).Nodup) :
    ∀ entry ∈ r.entries, entry ∈ r'.entries := fun _ hentry =>
  Keyed.mem_of_find? (h.within _ _ (Keyed.find?_of_mem hnodup hentry))

/-- A name that is in use but not given to a record stays so. -/
theorem Grows.not_kept (h : Grows r r') {name : String} (hused : name ∈ r.names.used)
    (hname : name ∉ r.names.keptNames) : name ∉ r'.names.keptNames := by
  intro hkept
  rcases h.kept name hkept with hkept | hfree
  · exact hname hkept
  · exact hfree hused

/-! ### Defining a part under a name -/

/-- A new name that comes into use leaves a registry sound. -/
theorem Sound.use (h : Sound P record r) {stem name : String}
    (hname : freeName r.names.policy r.names.used stem = .ok name) :
    Sound P record { r with names := { r.names with used := r.names.used ++ [name] } } where
  nodup := h.nodup
  used := fun n hn => List.mem_append_left _ (h.used n hn)
  legal := by
    intro n hn
    rcases List.mem_append.mp hn with hn | hn
    · exact h.legal n hn
    · obtain rfl := List.mem_singleton.mp hn
      exact freeName_legal h.delimiter hname
  delimiter := h.delimiter
  unnamed := h.unnamed
  kept := h.kept

/-- A part that is defined under a reserved name goes to the end. -/
theorem define_entries {name : String} (hnew : name ∉ Keyed.keys r.entries) (part : α) :
    (r.define name part).entries = r.entries ++ [(name, part)] :=
  Keyed.put_of_not_mem hnew part

/-- A registry to which a part was added under a reserved name has grown. -/
theorem define_grows {name : String} (hnew : name ∉ Keyed.keys r.entries) (part : α) :
    Grows r (r.define name part) where
  within := Keyed.within_put hnew part
  used := fun _ hname => hname
  kept := fun _ hname => .inl hname
  policy := rfl

/-- A part that is defined under a name reserved for it leaves a registry sound. -/
theorem define_sound (h : Sound P record r) {name : String} (hused : name ∈ r.names.used)
    (hnew : name ∉ Keyed.keys r.entries) (part : α) : Sound P record (r.define name part) where
  -- The name was reserved but had no part, so it is new among the keys and old among the names.
  nodup := by
    rw [define_entries hnew, Keyed.keys_append]
    exact nodup_concat h.nodup hnew
  used := by
    intro n hn
    rw [define_entries hnew, Keyed.keys_append, List.mem_append] at hn
    rcases hn with hn | hn
    · exact h.used n hn
    · obtain rfl := List.mem_singleton.mp hn
      exact hused
  legal := h.legal
  delimiter := h.delimiter
  unnamed := h.unnamed
  kept := by
    intro entry hentry
    obtain ⟨found, text, hfind, hrest⟩ := h.kept entry hentry
    exact ⟨found, text, Keyed.within_put hnew part _ _ hfind, hrest⟩

/-! ### Sharing -/

/-- **What interning does**, whether digests tell texts apart or not.  Either the key of the part is
    kept, and nothing changes; or the part is added under a name that is new. -/
theorem intern_cases (h : Sound P record r) {stem : Except Failure String} {part : α}
    {name : String} {isNew : Bool}
    (hyields : (r.intern record stem part).Yields P (name, isNew, r')) :
    ∃ text, structuralText (some "name") (record part) = .ok text ∧ P text ∧
      (r' = r ∧ Keyed.find? r.names.byKey (Digest.sha256Hex text) = some name ∨
        Keyed.find? r.names.byKey (Digest.sha256Hex text) = none ∧
          ∃ base, stem = .ok base ∧ freeName r.names.policy r.names.used base = .ok name ∧
            r' = { names := { r.names with
                     used := r.names.used ++ [name]
                     byKey := r.names.byKey ++ [(Digest.sha256Hex text, name)] }
                   entries := r.entries ++ [(name, part)] }) := by
  unfold intern at hyields
  obtain ⟨key, hkey, hyields⟩ := Recorded.yields_bind.mp hyields
  obtain ⟨text, htext, hP, rfl⟩ := Recorded.yields_digest.mp hkey
  rw [h.unnamed] at htext
  obtain ⟨⟨given, names⟩, hgiven, hyields⟩ := Recorded.yields_bind.mp hyields
  have hgiven := Recorded.yields_lift.mp hgiven
  unfold NameAllocator.allocateFor at hgiven
  refine ⟨text, htext, hP, ?_⟩
  split at hgiven
  next kept hkept =>
    -- the key is kept, and the part with its name is there
    have hpair := pure_eq_ok.mp hgiven
    simp only [Prod.mk.injEq] at hpair
    obtain ⟨rfl, rfl⟩ := hpair
    obtain ⟨found, text', hfind, -⟩ := h.kept _ (Keyed.mem_of_find? hkept)
    have hhas : Keyed.has r.entries kept = true := by
      rw [Keyed.has, hfind]
      rfl
    dsimp only at hyields
    rw [if_pos hhas] at hyields
    have hresult := Recorded.yields_pure.mp hyields
    simp only [Prod.mk.injEq] at hresult
    obtain ⟨rfl, -, rfl⟩ := hresult
    exact .inl ⟨rfl, hkept⟩
  next hnone =>
    -- the key is new: the part gets a name that is in use nowhere
    obtain ⟨base, hbase, hgiven⟩ := bind_eq_ok.mp hgiven
    obtain ⟨⟨free, used⟩, hfree, hgiven⟩ := bind_eq_ok.mp hgiven
    unfold NameAllocator.reserve at hfree
    obtain ⟨free', hfree', hfree⟩ := bind_eq_ok.mp hfree
    have hpair := pure_eq_ok.mp hfree
    have hpair' := pure_eq_ok.mp hgiven
    simp only [Prod.mk.injEq] at hpair hpair'
    obtain ⟨rfl, rfl⟩ := hpair
    obtain ⟨rfl, rfl⟩ := hpair'
    have hnew : ¬ Keyed.has r.entries free' = true := by
      rw [Keyed.has_iff_mem_keys]
      exact fun hmem => freeName_fresh hfree' (h.used _ hmem)
    dsimp only at hyields
    rw [if_neg hnew] at hyields
    have hresult := Recorded.yields_pure.mp hyields
    simp only [Prod.mk.injEq] at hresult
    obtain ⟨rfl, -, rfl⟩ := hresult
    exact .inr ⟨hnone, base, hbase, hfree', rfl⟩

/-- **What is shared.**  Either there is a part with a record of the same text already, and nothing
    changes; or the part is added under a name that is new. -/
theorem intern_spec (hsep : Separates P) (h : Sound P record r) {stem : Except Failure String}
    {part : α} {name : String} {isNew : Bool}
    (hyields : (r.intern record stem part).Yields P (name, isNew, r')) :
    (r' = r ∧ name ∈ r.names.keptNames ∧
      ∃ found, Keyed.find? r.entries name = some found ∧ SameRecord record found part) ∨
    (∃ key text base, stem = .ok base ∧ freeName r.names.policy r.names.used base = .ok name ∧
      structuralText (some "name") (record part) = .ok text ∧ P text ∧
      key = Digest.sha256Hex text ∧
      r' = { names := { r.names with
               used := r.names.used ++ [name], byKey := r.names.byKey ++ [(key, name)] }
             entries := r.entries ++ [(name, part)] }) := by
  obtain ⟨text, htext, hP, ⟨rfl, hkept⟩ | ⟨-, base, hbase, hfree, rfl⟩⟩ :=
    intern_cases h hyields
  · -- the part with the key has the same text, because the digests are told apart
    have hmem := Keyed.mem_of_find? hkept
    obtain ⟨found, text', hfind, htext', hP', hkey⟩ := h.kept _ hmem
    obtain rfl := hsep text' text hP' hP hkey.symm
    exact .inl ⟨rfl, List.mem_map_of_mem (f := (·.2)) hmem, found, hfind, text', htext', htext⟩
  · exact .inr ⟨_, text, base, hbase, hfree, htext, hP, rfl, rfl⟩

/-- A part has a record with the text that its record has. -/
theorem sameRecord_self {part : α} {text : String}
    (h : structuralText (some "name") (record part) = .ok text) : SameRecord record part part :=
  ⟨text, h, h⟩

/-- A part was interned, whatever it was to be named after. -/
def Interned (P : String → Prop) (record : α → Value) (r : Registry α)
    (part : α) (name : String)
    (r' : Registry α) : Prop :=
  ∃ stem isNew, (r.intern record stem part).Yields P (name, isNew, r')

/-- What holds after a part was stored, whether digests tell texts apart or not: the registry is
    sound and has grown by that part at most, and some part is found under the name. -/
structure Stored (P : String → Prop) (record : α → Value) (r : Registry α) (part : α)
    (name : String) (r' : Registry α) : Prop where
  sound : Sound P record r'
  grows : Grows r r'
  listed : name ∈ Keyed.keys r'.entries
  kept : name ∈ r'.names.keptNames
  nonempty : "" ∉ r.names.used → "" ∉ r'.names.used
  appended : r'.entries = r.entries ∧ r'.names.keptNames = r.names.keptNames ∨
    name ∉ r.names.used ∧ r'.entries = r.entries ++ [(name, part)] ∧
      r'.names.keptNames = r.names.keptNames ++ [name]

/-- The names that were kept still are. -/
theorem Stored.keptMono {part : α} {name : String} (h : Stored P record r part name r') :
    ∀ n ∈ r.names.keptNames, n ∈ r'.names.keptNames := by
  intro n hn
  rcases h.appended with ⟨-, heq⟩ | ⟨-, -, heq⟩
  · exact heq ▸ hn
  · exact heq ▸ List.mem_append_left _ hn

/-- The record of a part that was interned has a text. -/
theorem Interned.exists_text {part : α} {name : String}
    (hinterned : Interned P record r part name r') (h : Sound P record r) :
    ∃ text, structuralText (some "name") (record part) = .ok text := by
  obtain ⟨stem, isNew, hyields⟩ := hinterned
  obtain ⟨text, htext, -⟩ := intern_cases h hyields
  exact ⟨text, htext⟩

/-- **A part that was interned is stored.** -/
theorem Interned.stored {part : α} {name : String} (hinterned : Interned P record r part name r')
    (h : Sound P record r) : Stored P record r part name r' := by
  obtain ⟨stem, isNew, hyields⟩ := hinterned
  obtain ⟨text, htext, hP, ⟨rfl, hkept⟩ | ⟨-, base, -, hfree, rfl⟩⟩ :=
    intern_cases h hyields
  · have hmem := Keyed.mem_of_find? hkept
    obtain ⟨found, -, hfind, -⟩ := h.kept _ hmem
    exact ⟨h, .refl _, Keyed.mem_keys_of_find? hfind, List.mem_map_of_mem (f := (·.2)) hmem,
      id, .inl ⟨rfl, rfl⟩⟩
  · have hname := freeName_fresh hfree
    have hnew : name ∉ Keyed.keys r.entries := fun hmem => hname (h.used _ hmem)
    have hfind : Keyed.find? (r.entries ++ [(name, part)]) name = some part := by
      rw [Keyed.find?_append, Keyed.find?_eq_none_iff.mpr hnew]
      simp [Keyed.find?]
    have hsound : Sound P record
        { names := { r.names with used := r.names.used ++ [name] }
          entries := r.entries ++ [(name, part)] } := by
      -- the part is one that is defined, as far as names are concerned; only the kept keys are new
      have hdefined := define_sound (h.use hfree) (List.mem_append_right _ List.mem_cons_self)
        hnew part
      rwa [define, Keyed.put_of_not_mem hnew] at hdefined
    have hkept : NameAllocator.keptNames { r.names with
        used := r.names.used ++ [name]
        byKey := r.names.byKey ++ [(Digest.sha256Hex text, name)] }
          = r.names.keptNames ++ [name] := by
      simp [NameAllocator.keptNames, Keyed.values]
    refine ⟨⟨hsound.nodup, hsound.used, hsound.legal, hsound.delimiter, hsound.unnamed,
        fun entry hentry => ?_⟩,
      ⟨Keyed.within_append _ _, fun n hn => List.mem_append_left _ hn, fun n hn => ?_, rfl⟩,
      Keyed.mem_keys_of_find? hfind, by rw [hkept]; simp, fun hold hmem => ?_,
      .inr ⟨hname, rfl, hkept⟩⟩
    · rcases List.mem_append.mp hentry with hentry | hentry
      · exact hsound.kept entry hentry
      · obtain rfl := List.mem_singleton.mp hentry
        exact ⟨part, text, hfind, htext, hP, rfl⟩
    · rw [hkept, List.mem_append, List.mem_singleton] at hn
      rcases hn with hn | rfl
      · exact .inl hn
      · exact .inr hname
    · rcases List.mem_append.mp hmem with hmem | hmem
      · exact hold hmem
      · exact freeName_ne_empty hfree (List.mem_singleton.mp hmem).symm

/-! ### Registries without repetitions -/

/-- The key of every part of a registry is kept, and its name is found under it. -/
def Complete (record : α → Value) (r : Registry α) : Prop :=
  ∀ entry ∈ r.entries, ∃ text, structuralText (some "name") (record entry.2) = .ok text ∧
    Keyed.find? r.names.byKey (Digest.sha256Hex text) = some entry.1

/-- **Interning keeps a registry complete.** -/
theorem Interned.complete {part : α} {name : String}
    (hinterned : Interned P record r part name r') (h : Sound P record r)
    (hcomplete : Complete record r) : Complete record r' := by
  obtain ⟨stem, isNew, hyields⟩ := hinterned
  obtain ⟨text, htext, -, ⟨rfl, -⟩ | ⟨hnone, base, -, -, rfl⟩⟩ := intern_cases h hyields
  · exact hcomplete
  · intro entry hentry
    rcases List.mem_append.mp hentry with hentry | hentry
    · obtain ⟨other, hother, hfind⟩ := hcomplete entry hentry
      exact ⟨other, hother, Keyed.within_append _ _ _ _ hfind⟩
    · obtain rfl := List.mem_singleton.mp hentry
      refine ⟨text, htext, ?_⟩
      rw [Keyed.find?_append, hnone]
      simp [Keyed.find?]

/-- **Parts of a complete registry whose records have one text are one part**, since one name is
    found under the key of the text. -/
theorem Complete.eq_of_sameRecord (h : Complete record r) (hnodup : (Keyed.keys r.entries).Nodup)
    {entry other : String × α} (hentry : entry ∈ r.entries) (hother : other ∈ r.entries)
    (hsame : SameRecord record entry.2 other.2) : entry = other := by
  obtain ⟨text, htext, hfind⟩ := h entry hentry
  obtain ⟨text', htext', hfind'⟩ := h other hother
  obtain ⟨common, hcommon, hcommon'⟩ := hsame
  obtain rfl := Except.ok.inj (htext.symm.trans hcommon)
  obtain rfl := Except.ok.inj (htext'.symm.trans hcommon')
  have hname : entry.1 = other.1 := Option.some.inj (hfind.symm.trans hfind')
  have hpart : Keyed.find? r.entries entry.1 = some entry.2 := Keyed.find?_of_mem hnodup hentry
  have hpart' : Keyed.find? r.entries other.1 = some other.2 := Keyed.find?_of_mem hnodup hother
  rw [hname, hpart'] at hpart
  exact Prod.ext hname (Option.some.inj hpart).symm

/-- Every key of a registry is kept once. -/
def KeysDistinct (r : Registry α) : Prop := (Keyed.keys r.names.byKey).Nodup

/-- Interning adds a key only when it is not kept yet. -/
theorem Interned.keysDistinct {part : α} {name : String}
    (hinterned : Interned P record r part name r') (h : Sound P record r)
    (hdistinct : r.KeysDistinct) : r'.KeysDistinct := by
  obtain ⟨stem, isNew, hyields⟩ := hinterned
  obtain ⟨text, -, -, ⟨rfl, -⟩ | ⟨hnone, base, -, -, rfl⟩⟩ := intern_cases h hyields
  · exact hdistinct
  · show (Keyed.keys (r.names.byKey ++ [(Digest.sha256Hex text, name)])).Nodup
    rw [Keyed.keys_append]
    exact nodup_concat hdistinct (Keyed.find?_eq_none_iff.mp hnone)

/-- **Parts that were interned with one record have one name**, since one name is kept for the key
    of its text. -/
theorem Sound.name_unique (h : Sound P record r) (hdistinct : r.KeysDistinct) {name other : String}
    (hname : name ∈ r.names.keptNames) (hother : other ∈ r.names.keptNames) {part part' : α}
    (hpart : Keyed.find? r.entries name = some part)
    (hpart' : Keyed.find? r.entries other = some part') (heq : record part = record part') :
    name = other := by
  obtain ⟨⟨key, name⟩, hentry, rfl⟩ := List.mem_map.mp hname
  obtain ⟨⟨key', other⟩, hentry', rfl⟩ := List.mem_map.mp hother
  obtain ⟨found, text, hfound, htext, -, hkey⟩ := h.kept _ hentry
  obtain ⟨found', text', hfound', htext', -, hkey'⟩ := h.kept _ hentry'
  obtain rfl := Option.some.inj (hpart.symm.trans hfound)
  obtain rfl := Option.some.inj (hpart'.symm.trans hfound')
  -- one record has one text, and one text has one key
  obtain rfl := Except.ok.inj (htext.symm.trans (heq ▸ htext'))
  obtain rfl : key = key' := hkey.trans hkey'.symm
  have hfind := Keyed.find?_of_mem hdistinct hentry
  exact Option.some.inj (hfind.symm.trans (Keyed.find?_of_mem hdistinct hentry'))

/-! ### What is shared -/

/-- What holds after a part was shared: the registry is sound and has grown by that part at most,
    and a part with a record of the same text is found under the name. -/
structure Shared (P : String → Prop) (record : α → Value) (r : Registry α) (part : α)
    (name : String) (r' : Registry α) : Prop where
  sound : Sound P record r'
  grows : Grows r r'
  found : ∃ found, Keyed.find? r'.entries name = some found ∧ SameRecord record found part
  appended : r'.entries = r.entries ∨ r'.entries = r.entries ++ [(name, part)]
  kept : name ∈ r'.names.keptNames
  keptMono : ∀ n ∈ r.names.keptNames, n ∈ r'.names.keptNames
  complete : Complete record r → Complete record r'

/-- No other part is added. -/
theorem Shared.entries {part : α} {name : String} (h : Shared P record r part name r') :
    ∀ entry ∈ r'.entries, entry ∈ r.entries ∨ entry = (name, part) := by
  intro entry hentry
  rcases h.appended with heq | heq
  · exact .inl (heq ▸ hentry)
  · rw [heq] at hentry
    simpa using hentry

/-- **Sharing leaves a registry sound.** -/
theorem intern_shared (hsep : Separates P) (h : Sound P record r) {stem : Except Failure String}
    {part : α} {name : String} {isNew : Bool}
    (hyields : (r.intern record stem part).Yields P (name, isNew, r')) :
    Shared P record r part name r' := by
  have hinterned : Interned P record r part name r' := ⟨stem, isNew, hyields⟩
  have hstored := hinterned.stored h
  refine ⟨hstored.sound, hstored.grows, ?_, hstored.appended.imp And.left fun h => h.2.1,
    hstored.kept, hstored.keptMono, hinterned.complete h⟩
  rcases intern_spec hsep h hyields with
    ⟨rfl, -, hfound⟩ | ⟨key, text, base, -, hfree, htext, -, -, rfl⟩
  · exact hfound
  · have hnew : name ∉ Keyed.keys r.entries := fun hmem => freeName_fresh hfree (h.used _ hmem)
    refine ⟨part, ?_, sameRecord_self htext⟩
    rw [Keyed.find?_append, Keyed.find?_eq_none_iff.mpr hnew]
    simp [Keyed.find?]

/-- The same for a part that was interned under whatever stem. -/
theorem Interned.shared {part : α} {name : String} (hinterned : Interned P record r part name r')
    (hsep : Separates P) (h : Sound P record r) : Shared P record r part name r' := by
  obtain ⟨stem, isNew, hyields⟩ := hinterned
  exact intern_shared hsep h hyields

end Registry

/-! ### Parts are shared exactly when they are equal -/

variable {α : Type} {record : α → Value} {a b : α}

/-- Records without a field for a name. -/
def Unnamed (record : α → Value) : Prop :=
  ∀ part, ∃ fields, record part = .ofFields fields ∧ ∀ field ∈ fields, field.1 ≠ "name"

/-- What is shared one way is shared the other way. -/
theorem SameRecord.symm (h : SameRecord record a b) : SameRecord record b a := by
  obtain ⟨text, ha, hb⟩ := h
  exact ⟨text, hb, ha⟩

/-- Parts that are shared with one part are shared with each other. -/
theorem SameRecord.trans {other : α} (h : SameRecord record a b)
    (h' : SameRecord record b other) : SameRecord record a other := by
  obtain ⟨text, ha, hb⟩ := h
  obtain ⟨text', hb', hother⟩ := h'
  obtain rfl := Except.ok.inj (hb.symm.trans hb')
  exact ⟨text, ha, hother⟩

/-- Parts that are shared have alike records. -/
theorem SameRecord.alike (hrecord : Unnamed record) (h : SameRecord record a b) :
    Alike (record a) (record b) := by
  obtain ⟨text, ha, hb⟩ := h
  obtain ⟨fs, hfs, hunnamed⟩ := hrecord a
  obtain ⟨gs, hgs, hunnamed'⟩ := hrecord b
  rw [hfs] at ha ⊢
  rw [hgs] at hb ⊢
  exact alike_of_structuralText hunnamed hunnamed' ha hb

/-- **Parts that are shared have equal records**, if these are made of texts. -/
theorem SameRecord.same (hrecord : Unnamed record) (ha : (record a).Textual)
    (hb : (record b).Textual) (h : SameRecord record a b) : (record a).Same (record b) :=
  ha.same hb (h.alike hrecord)

/-- **Parts with equal records are shared**, if they can be. -/
theorem sameRecord_of_same (hrecord : Unnamed record) {text text' : String}
    (ha : structuralText (some "name") (record a) = .ok text)
    (hb : structuralText (some "name") (record b) = .ok text')
    (h : (record a).Same (record b)) : SameRecord record a b := by
  obtain ⟨fs, hfs, hunnamed⟩ := hrecord a
  obtain ⟨gs, hgs, hunnamed'⟩ := hrecord b
  have hfs' := canonical_of_structuralText hunnamed (hfs ▸ ha)
  have hgs' := canonical_of_structuralText hunnamed' (hgs ▸ hb)
  rw [hfs, hgs] at h
  obtain rfl := h.text_eq hfs' hgs'
  exact ⟨text, ha, hb⟩

/-- **No two parts of a complete registry have equal records.** -/
theorem Registry.Complete.different {r : Registry α} (h : r.Complete record)
    (hrecord : Unnamed record) (hnodup : (Keyed.keys r.entries).Nodup) :
    r.entries.Pairwise fun entry other => ¬ (record entry.2).Same (record other.2) := by
  refine hnodup.of_map.pairwise_of_forall_ne fun entry hentry other hother hne hsame => hne ?_
  obtain ⟨text, htext, -⟩ := h entry hentry
  obtain ⟨text', htext', -⟩ := h other hother
  exact h.eq_of_sameRecord hnodup hentry hother (sameRecord_of_same hrecord htext htext' hsame)

end PipelineCompiler
