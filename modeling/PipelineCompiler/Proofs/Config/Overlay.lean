import Mathlib.Logic.Relation
import PipelineCompiler.Config.Load
import PipelineCompiler.Proofs.Success

namespace PipelineCompiler.Config

/-!
# Configurations keep their shape

An override adds settings to a configuration and replaces some, but it takes none away and changes
the type of none.

* `HasField` — a setting of a mapping, before which there is no other key that is the same;
* `Overlaid` — a value over which some overrides were laid, one after another;
* `Lasting` — what entries hold before and after one of them is written, and so after a merge;
* `Overlaid.typeName`, `Overlaid.field` — values keep their types, and mappings their settings;
* `load_overlaid`, `exists_section` — every configuration consists of the defaults, overlaid, and
  has their sections.
-/

/-! ### Types -/

/-- A place has no influence on the type of a value. -/
theorem typeName_bare (v : Value) : v.bare.typeName = v.typeName := by
  induction v using Value.bare.induct with
  | case1 place v ih => exact ih
  | case2 v hplaced => rw [Value.bare]; exact hplaced

/-- There is a place around nothing once a value is bare. -/
theorem bare_ne_placed (v : Value) (place : Nat) (inner : Value) :
    v.bare ≠ .placed place inner := by
  induction v using Value.bare.induct with
  | case1 place v ih => exact ih
  | case2 v hplaced =>
    rw [Value.bare]
    · exact fun heq => hplaced _ _ heq
    · exact hplaced

/-- The type of a value tells which form it has. -/
theorem form_of_typeName (v : Value) :
    (v.typeName = "str" → ∃ s, v.bare = .str s) ∧
      (v.typeName = "int" → ∃ i, v.bare = .int i) ∧
      (v.typeName = "bool" → ∃ b, v.bare = .bool b) ∧
      (v.typeName = "dict" → ∃ entries, v.bare = .map entries) := by
  rw [← typeName_bare]
  cases hv : v.bare with
  | placed place inner => exact absurd hv (bare_ne_placed v place inner)
  | _ => simp [Value.typeName]

/-- A value with the type of texts is a text. -/
theorem exists_str {v : Value} (h : v.typeName = "str") : ∃ s, v.bare = .str s :=
  (form_of_typeName v).1 h

/-- A value with the type of numbers is a number. -/
theorem exists_int {v : Value} (h : v.typeName = "int") : ∃ i, v.bare = .int i :=
  (form_of_typeName v).2.1 h

/-- A value with the type of switches is a switch. -/
theorem exists_bool {v : Value} (h : v.typeName = "bool") : ∃ b, v.bare = .bool b :=
  (form_of_typeName v).2.2.1 h

/-- A value with the type of mappings is a mapping. -/
theorem exists_map {v : Value} (h : v.typeName = "dict") : ∃ entries, v.bare = .map entries :=
  (form_of_typeName v).2.2.2 h

/-! ### Keys -/

/-- What is the same key as a text is that text. -/
theorem bare_of_sameKey {name : String} {key : Value} (h : (Value.str name).sameKey key = true) :
    key.bare = .str name := by
  have hscalar : Value.sameScalar (.str name) key = true := h
  unfold Value.sameScalar at hscalar
  cases hwhole : key.whole? with
  | some i => simp [hwhole, Value.whole?] at hscalar
  | none =>
    simp only [hwhole, Value.whole?, Value.bare] at hscalar
    cases hkey : key.bare with
    | str s =>
      rw [hkey] at hscalar
      have hname : (name == s) = true := hscalar
      rw [eq_of_beq hname]
    | _ =>
      rw [hkey] at hscalar
      cases hscalar

/-- Whatever is the same key as one of two is the same as the other. -/
theorem sameKey_congr {name : String} {key : Value} (h : (Value.str name).sameKey key = true)
    (other : Value) : other.sameKey key = other.sameKey (.str name) := by
  have hbare := bare_of_sameKey h
  have hwhole : key.whole? = none := by
    clear h
    -- By induction on the places around the key.
    induction key using Value.bare.induct with
    | case1 place v ih => exact ih hbare
    | case2 v hplaced =>
      rw [Value.bare] at hbare
      · rw [hbare]
        rfl
      · exact hplaced
  have hscalar : other.sameScalar key = other.sameScalar (.str name) := by
    unfold Value.sameScalar
    rw [hwhole, hbare]
    cases other.whole? with
    | some i => rfl
    | none => cases other.bare <;> rfl
  unfold Value.sameKey
  rw [hbare, hscalar]
  cases other.bare <;> rfl

/-! ### Settings -/

/-- The setting with a name in a mapping.  No other key before it is the same, so that it is also
    the one that is overlaid. -/
def HasField (entries : Value.Entries) (name : String) (v : Value) : Prop :=
  ∃ before after, entries = before ++ (.str name, v) :: after ∧
    ∀ entry ∈ before, entry.1.sameKey (.str name) = false

namespace HasField

variable {entries : Value.Entries} {name : String} {v : Value}

/-- A mapping with text keys has the fields that are found in it. -/
theorem ofFields {fields : Keyed Value} (h : Keyed.find? fields name = some v) :
    HasField (fields.map fun field => (.str field.1, field.2)) name v := by
  induction fields with
  | nil => cases h
  | cons field rest ih =>
    rw [Keyed.find?] at h
    split at h
    next heq =>
      obtain rfl := Option.some.inj h
      exact ⟨[], _, by rw [← heq]; rfl, List.forall_mem_nil _⟩
    next hne =>
      obtain ⟨before, after, hrest, hbefore⟩ := ih h
      refine ⟨(.str field.1, field.2) :: before, after, by rw [List.map_cons, hrest]; rfl,
        List.forall_mem_cons.mpr ⟨?_, hbefore⟩⟩
      have hother : (field.1 == name) = false := beq_eq_false_iff_ne.mpr hne
      exact hother

/-- The field is found by its name. -/
theorem field? (h : HasField entries name v) : Value.field? entries name = some v := by
  obtain ⟨before, after, rfl, hbefore⟩ := h
  induction before with
  | nil => exact if_pos rfl
  | cons entry before ih =>
    obtain ⟨key, w⟩ := entry
    have hrest := ih fun other hother => hbefore other (List.mem_cons_of_mem _ hother)
    have hkey := hbefore _ List.mem_cons_self
    cases key with
    | str other =>
      have hne : other ≠ name := beq_eq_false_iff_ne.mp hkey
      exact (if_neg hne).trans hrest
    | _ => exact hrest

/-- The field is found by every key that is the same. -/
theorem get? (h : HasField entries name v) {key : Value}
    (hkey : (Value.str name).sameKey key = true) : Value.get? entries key = some v := by
  obtain ⟨before, after, rfl, hbefore⟩ := h
  induction before with
  | nil => exact if_pos hkey
  | cons entry before ih =>
    have hother : entry.1.sameKey key = false :=
      (sameKey_congr hkey entry.1).trans (hbefore _ List.mem_cons_self)
    have hrest := ih fun other hother => hbefore other (List.mem_cons_of_mem _ hother)
    exact (if_neg (by rw [hother]; exact Bool.false_ne_true)).trans hrest

/-- **A field that is written** holds what was written, and the others what they held. -/
theorem put (h : HasField entries name v) (key w : Value) : HasField (Value.put entries key w) name
    (if (Value.str name).sameKey key then w else v) := by
  obtain ⟨before, after, rfl, hbefore⟩ := h
  induction before with
  | nil =>
    rw [List.nil_append, Value.put]
    split
    · exact ⟨[], after, rfl, fun _ hentry => nomatch hentry⟩
    · exact ⟨[], _, rfl, fun _ hentry => nomatch hentry⟩
  | cons entry before ih =>
    obtain ⟨other, u⟩ := entry
    have hother := hbefore _ List.mem_cons_self
    rw [List.cons_append, Value.put]
    split
    next hsame =>
      -- the key that is written is not the name, because it comes before
      have hkey : (Value.str name).sameKey key = false := by
        cases hkey : (Value.str name).sameKey key with
        | false => rfl
        | true => exact absurd ((sameKey_congr hkey other).symm.trans hsame) (by simp [hother])
      rw [hkey]
      refine ⟨(other, w) :: before, after, rfl, fun entry hentry => ?_⟩
      rcases List.mem_cons.mp hentry with rfl | hentry
      · exact hother
      · exact hbefore entry (List.mem_cons_of_mem _ hentry)
    next =>
      obtain ⟨before', after', heq, hbefore'⟩ :=
        ih fun entry hentry => hbefore entry (List.mem_cons_of_mem _ hentry)
      refine ⟨(other, u) :: before', after', by rw [heq]; rfl, fun entry hentry => ?_⟩
      rcases List.mem_cons.mp hentry with rfl | hentry
      · exact hother
      · exact hbefore' entry hentry

end HasField

/-! ### Overlays -/

/-- A value over which overrides were laid, one after another. -/
def Overlaid : Value → Value → Prop :=
  Relation.ReflTransGen fun base merged => ∃ path override,
    mergeValue path base override = .ok merged

/-- What entries hold, and still hold after a key is written, at most overlaid, where the value
    that is written was laid over the one under its key. -/
def Lasting (P : Value.Entries → Value → Prop) : Prop :=
  ∀ entries v key value, P entries v →
    (∀ found, Value.get? entries key = some found → Overlaid found value) →
    ∃ w, P (Value.put entries key value) w ∧ Overlaid v w

/-- **What lasts when a key is written lasts in a merge.** -/
theorem Lasting.mergeEntries {P : Value.Entries → Value → Prop} (hP : Lasting P)
    {path : List String} {base out : Value.Entries} {overrides : List (Value × Value)}
    (h : mergeEntries path base overrides = .ok out) {v : Value} (hv : P base v) :
    ∃ w, P out w ∧ Overlaid v w := by
  -- By induction on the entries of the override: each one writes a key and keeps what lasts.
  induction overrides generalizing base v with
  | nil =>
    rw [Config.mergeEntries] at h
    obtain rfl := Except.ok.inj h
    exact ⟨v, hv, .refl⟩
  | cons entry rest ih =>
    obtain ⟨key, override⟩ := entry
    obtain ⟨value, hvalue, h⟩ : ∃ value,
        (∀ found, Value.get? base key = some found → Overlaid found value) ∧
          Config.mergeEntries path (Value.put base key value) rest = .ok out := by
      rw [Config.mergeEntries] at h
      split at h
      next hnone =>
        refine ⟨override, fun found hfound => ?_, h⟩
        rw [hnone] at hfound
        cases hfound
      next found hfound =>
        obtain ⟨merged, hmerged, h⟩ := bind_eq_ok.mp h
        refine ⟨merged, fun other hother => ?_, h⟩
        obtain rfl := Option.some.inj (hfound.symm.trans hother)
        exact .single ⟨_, _, hmerged⟩
    obtain ⟨w, hw, hover⟩ := hP _ _ _ _ hv hvalue
    obtain ⟨last, hlast, hover'⟩ := ih h hw
    exact ⟨last, hlast, hover.trans hover'⟩

/-- The settings of a mapping last. -/
theorem lasting_hasField (name : String) : Lasting fun entries v => HasField entries name v := by
  intro entries v key value hfield hvalue
  have hput := hfield.put key value
  split at hput
  next hkey => exact ⟨value, hput, hvalue v (hfield.get? hkey)⟩
  next => exact ⟨v, hput, .refl⟩

/-- A value is replaced by one of its type. -/
theorem replaceValue_typeName {path : List String} {base override merged : Value}
    (h : replaceValue path base override = .ok merged) (hbase : base.typeName ≠ "NoneType") :
    merged.typeName = base.typeName := by
  unfold replaceValue at h
  split at h
  next hsame =>
    obtain rfl := Except.ok.inj h
    exact (hsame.resolve_left hbase).symm
  next => cases h

/-- What is laid over a mapping is a mapping, whose entries are laid over those that are there. -/
theorem mergeValue_map {path : List String} {base override merged : Value}
    {entries : Value.Entries} (hbase : base.bare = .map entries)
    (h : mergeValue path base override = .ok merged) : ∃ overrides out,
      mergeEntries path entries overrides = .ok out ∧ merged.bare = .map out := by
  have hdict : base.typeName = "dict" := by
    rw [← typeName_bare, hbase]
    rfl
  -- what replaces a mapping would be one as well
  have hreplace : ∀ {other : Value}, other.isMapping = false →
      replaceValue path base other ≠ .ok merged := by
    intro other hother hreplaced
    have htype := replaceValue_typeName hreplaced (by rw [hdict]; decide)
    unfold replaceValue at hreplaced
    split at hreplaced
    · obtain rfl := Except.ok.inj hreplaced
      obtain ⟨found, hfound⟩ := exists_map (htype.trans hdict)
      simp [Value.isMapping, hfound] at hother
    · cases hreplaced
  induction override using Value.bare.induct generalizing merged with
  | case1 place override ih =>
    rw [mergeValue] at h
    split at h
    next => exact ih h hreplace
    next hnot =>
      refine absurd h (hreplace ?_)
      simpa [Value.isMapping, hbase, Value.bare] using hnot
  | case2 override hplaced =>
    cases override with
    | map overrides =>
      rw [mergeValue, hbase] at h
      obtain ⟨out, hout, rfl⟩ := map_eq_ok.mp h
      exact ⟨overrides, out, hout, rfl⟩
    | placed place inner => exact absurd rfl (hplaced place inner)
    | _ => exact absurd h (hreplace rfl)

/-- A value that is no mapping is replaced. -/
theorem mergeValue_typeName {path : List String} {base override merged : Value}
    (h : mergeValue path base override = .ok merged) (hbase : base.typeName ≠ "NoneType") :
    merged.typeName = base.typeName := by
  -- A mapping stays one when it is merged; everything else is replaced by a value of its own type.
  by_cases hmapping : base.isMapping = true
  · obtain ⟨entries, hentries⟩ : ∃ entries, base.bare = .map entries := by
      unfold Value.isMapping at hmapping
      split at hmapping
      next entries hentries => exact ⟨entries, hentries⟩
      next => cases hmapping
    obtain ⟨-, out, -, hout⟩ := mergeValue_map hentries h
    rw [← typeName_bare, hout, ← typeName_bare base, hentries]
    rfl
  · have hreplaced : replaceValue path base override = .ok merged := by
      rw [Bool.not_eq_true] at hmapping
      cases override with
      | map entries =>
        rw [mergeValue] at h
        unfold Value.isMapping at hmapping
        split at h
        next hmap => simp [hmap] at hmapping
        next => exact h
      | placed place inner =>
        rw [mergeValue, hmapping] at h
        exact h
      | _ => exact h
    exact replaceValue_typeName hreplaced hbase

namespace Overlaid

variable {v w : Value}

/-- **Values keep their types.** -/
theorem typeName (h : Overlaid v w) (hv : v.typeName ≠ "NoneType") : w.typeName = v.typeName := by
  induction h with
  | refl => rfl
  | tail _ step ih =>
    obtain ⟨path, override, hmerged⟩ := step
    exact (mergeValue_typeName hmerged (ih ▸ hv)).trans ih

/-- What lasts in a merge of entries lasts in mappings that are overlaid. -/
theorem lasting {P : Value.Entries → Value → Prop} (hP : Lasting P) (h : Overlaid v w)
    {entries : Value.Entries} (hv : v.bare = .map entries) {found : Value}
    (hfound : P entries found) :
    ∃ out other, w.bare = .map out ∧ P out other ∧ Overlaid found other := by
  induction h with
  | refl => exact ⟨entries, found, hv, hfound, .refl⟩
  | tail _ step ih =>
    obtain ⟨path, override, hmerged⟩ := step
    obtain ⟨between, other, hbetween, hother, hover⟩ := ih
    obtain ⟨overrides, out, hout, hmap⟩ := mergeValue_map hbetween hmerged
    obtain ⟨last, hlast, hover'⟩ := hP.mergeEntries hout hother
    exact ⟨out, last, hmap, hlast, hover.trans hover'⟩

/-- **Mappings keep their settings**, which are overlaid themselves. -/
theorem field (h : Overlaid v w) {entries : Value.Entries} (hv : v.bare = .map entries)
    {name : String} {found : Value} (hfield : HasField entries name found) :
    ∃ out other, w.bare = .map out ∧ HasField out name other ∧ Overlaid found other :=
  lasting (lasting_hasField name) h hv hfield

end Overlaid

/-! ### Configurations -/

/-- What is laid over a configuration is laid over a mapping, and makes one. -/
theorem overlaid_of_overlay {base override config : Value}
    (h : overlay base override = .ok config) :
    Overlaid base config ∧ ∃ entries, config = .map entries := by
  have h := mapError_eq_ok h
  unfold merge at h
  split at h
  next bs os hbs hos =>
    refine ⟨.single ⟨[], .map os, ?_⟩, ?_⟩
    · rw [mergeValue, hbs]
      exact h
    · obtain ⟨out, -, rfl⟩ := map_eq_ok.mp h
      exact ⟨out, rfl⟩
  next => cases h

/-- **Every configuration consists of the defaults, overlaid**, and it is a mapping. -/
theorem load_overlaid {file : Option SourceFile} {overrides config : Value}
    (h : load file overrides = .ok config) :
    Overlaid defaults config ∧ ∃ entries, config = .map entries := by
  unfold load at h
  obtain ⟨start, hstart, h⟩ := bind_eq_ok.mp h
  obtain ⟨hstart, hentries⟩ := overlaid_of_overlay hstart
  extract_lets last at h
  obtain ⟨filed, ⟨hfiled, hentries⟩, h⟩ : ∃ filed,
      (Overlaid defaults filed ∧ ∃ entries, filed = .map entries) ∧
        last filed = .ok config := by
    split at h
    next =>
      obtain ⟨found, -, h⟩ := bind_eq_ok.mp h
      obtain ⟨filed, hfiled, h⟩ := bind_eq_ok.mp h
      obtain ⟨hover, hentries⟩ := overlaid_of_overlay hfiled
      exact ⟨filed, ⟨hstart.trans hover, hentries⟩, h⟩
    next => exact ⟨start, ⟨hstart, hentries⟩, h⟩
  dsimp only [last] at h
  -- Overrides go on top of the file, which is on top of the defaults by now.
  split at h
  · split at h
    next =>
      obtain ⟨hover, hentries⟩ := overlaid_of_overlay h
      exact ⟨hfiled.trans hover, hentries⟩
    next => cases h
  · obtain rfl := pure_eq_ok.mp h
    exact ⟨hfiled, hentries⟩

/-- **A section of the defaults is one of the configuration**, overlaid. -/
theorem exists_section {sections : Value.Entries} (h : Overlaid defaults (.map sections))
    {fields settings : Keyed Value} (hdefaults : defaults = .ofFields fields) (target : String)
    (hsection : Keyed.find? fields target = some (.ofFields settings)) :
    ∃ found entries, HasField sections target found ∧ found.bare = .map entries ∧
      Overlaid (.ofFields settings) found := by
  obtain ⟨out, found, hout, hfound, hover⟩ :=
    h.field (by rw [hdefaults]; rfl) (.ofFields hsection)
  obtain rfl : sections = out := Value.map.inj hout
  obtain ⟨entries, hentries⟩ :=
    exists_map (hover.typeName (by simp [Value.ofFields, Value.typeName]))
  exact ⟨found, entries, hfound, hentries, hover⟩

end PipelineCompiler.Config
