import PipelineCompiler.Proofs.Config.Paths
import PipelineCompiler.Proofs.Config.Sources

namespace PipelineCompiler

/-!
# Layers of configurations

Several overrides are laid over a configuration one after another, or merged first and laid over it
as one; the outcome is the same when the first of them can be laid over it.

* `Config.merged?_assoc` — overrides may be merged first;
* `Value.unplaced`, `Config.merged?_self` — laying an override over a configuration twice;
* `Config.SameOutcome`, `Config.IsConflict` — results that are the same, failures among them;
* `Config.load_file` — a file and overrides give the configuration that their merge gives;
* `Config.layers_exact` — all of it;
* `Config.load_keeps_shape` — no layer changes the shape of what it is laid over.
-/

namespace Config

variable {a b c ab : Value} {as bs cs abs bcs r r' : Value.Entries}

/-- What is replaced is what replaces it. -/
theorem eq_of_merged? (h : merged? a b = some ab) (hnot : (a.isMapping && b.isMapping) = false) :
    ab = b ∧ (a.typeName = "NoneType" ∨ a.typeName = b.typeName) := by
  rw [merged?_of_not hnot] at h
  split at h
  next htype => exact ⟨(Option.some.inj h).symm, htype⟩
  next => cases h

/-- Values of one type are both mappings, or neither is. -/
theorem isMapping_congr (h : a.typeName = b.typeName) : a.isMapping = b.isMapping := by
  have hdict : ∀ {v : Value}, v.isMapping = true ↔ v.typeName = "dict" := by
    intro v
    rw [isMapping_iff]
    exact ⟨fun ⟨entries, hentries⟩ => typeName_of_map hentries, exists_map⟩
  rw [Bool.eq_iff_iff, hdict, hdict, h]

/-- A base that is replaced is no mapping. -/
theorem isMapping_eq_false (hnot : (a.isMapping && b.isMapping) = false)
    (htype : a.typeName = "NoneType" ∨ a.typeName = b.typeName) : a.isMapping = false := by
  rcases htype with hnull | htype
  · by_contra hmapping
    obtain ⟨entries, hentries⟩ := isMapping_iff.mp (by simpa using hmapping)
    exact absurd ((typeName_of_map hentries).symm.trans hnull) (by decide)
  · rw [← isMapping_congr htype, Bool.and_self] at hnot
    exact hnot

/-- What a merge makes of a value that is not null has the same type. -/
theorem merged?_typeName (h : merged? a b = some ab) (ha : a.typeName ≠ "NoneType") :
    ab.typeName = a.typeName :=
  mergeValue_typeName (toOption_eq_some.mp h) ha

/-- A mapping cannot be merged with anything else. -/
theorem merged?_of_map_of_not (ha : a.bare = .map as) (hb : b.isMapping = false) :
    merged? a b = none := by
  cases h : merged? a b with
  | none => rfl
  | some ab =>
    have hnot : (a.isMapping && b.isMapping) = false := by rw [hb, Bool.and_false]
    have hfalse := isMapping_eq_false hnot (eq_of_merged? h hnot).2
    rw [isMapping_iff.mpr ⟨as, ha⟩] at hfalse
    cases hfalse

/-! ### Associativity -/

/-- Where the override replaces the base, a further override may be laid over either first. -/
theorem merged?_assoc_of_not (hab : merged? a b = some ab)
    (hnot : (a.isMapping && b.isMapping) = false) (c : Value) :
    merged? ab c = (merged? b c).bind (merged? a) := by
  obtain ⟨rfl, htype⟩ := eq_of_merged? hab hnot
  have ha := isMapping_eq_false hnot htype
  cases hbc : merged? ab c with
  | none => rfl
  | some bc =>
    have hnot' : (a.isMapping && bc.isMapping) = false := by rw [ha, Bool.false_and]
    rw [Option.bind_some, merged?_of_not hnot', if_pos]
    -- a type that is not null passes from `a` to `b`, and from `b` to what is made of it
    by_cases hnull : a.typeName = "NoneType"
    · exact .inl hnull
    · have heq := htype.resolve_left hnull
      exact .inr (heq.trans (merged?_typeName hbc (heq ▸ hnull)).symm)

/-- Under one key, a further override may be laid over the base or over the first override, if this
    is so where there are values. -/
theorem mergedAt?_assoc {x y z xy : Option Value} (hxy : mergedAt? x y = some xy)
    (h : ∀ a b c ab, x = some a → y = some b → z = some c → merged? a b = some ab →
      merged? ab c = (merged? b c).bind (merged? a)) :
    mergedAt? xy z = (mergedAt? y z).bind (mergedAt? x) := by
  cases z with
  -- Where one of the three has nothing under the key, the other two are merged either way.
  | none =>
    rw [mergedAt?, mergedAt?, Option.bind_some, hxy]
  | some c =>
    cases y with
    | none =>
      rw [mergedAt?] at hxy
      rw [← Option.some.inj hxy, mergedAt?]
      rfl
    | some b =>
      cases x with
      | none =>
        rw [mergedAt?] at hxy
        rw [← Option.some.inj hxy, mergedAt?]
        cases merged? b c <;> rfl
      | some a =>
        rw [mergedAt?, Option.map_eq_some_iff] at hxy
        obtain ⟨ab, hab, rfl⟩ := hxy
        rw [mergedAt?, mergedAt?, h a b c ab rfl rfl rfl hab]
        cases merged? b c <;> rfl

/-- The keys of a merge differ, where those of both sides do. -/
theorem keysDiffer_of_mergeEntries (has : Value.KeysDiffer (as.map Prod.fst))
    (hbs : Value.KeysDiffer (bs.map Prod.fst)) {path : List String}
    (h : mergeEntries path as bs = .ok abs) : Value.KeysDiffer (abs.map Prod.fst) := by
  rw [keys_of_mergeEntries hbs h, Value.KeysDiffer, List.pairwise_append]
  refine ⟨has, hbs.filter _, fun key hkey other hother => ?_⟩
  obtain ⟨entry, hentry, rfl⟩ := List.mem_map.mp hkey
  have hnone := (List.mem_filter.mp hother).2
  rw [Option.isNone_iff_eq_none, Value.get?_eq_none_iff] at hnone
  exact hnone entry hentry

/-- A key is missing in a merge when it is missing on both sides. -/
theorem get?_isNone_of_mergeEntries (hbs : Value.KeysDiffer (bs.map Prod.fst)) {path : List String}
    (h : mergeEntries path as bs = .ok abs) (key : Value) : (Value.get? abs key).isNone =
      ((Value.get? as key).isNone && (Value.get? bs key).isNone) := by
  have hkey := mergedAt?_get? hbs h key
  cases ha : Value.get? as key <;> cases hb : Value.get? bs key
  case some.some =>
    rw [ha, hb, mergedAt?, Option.map_eq_some_iff] at hkey
    obtain ⟨m, -, hm⟩ := hkey
    rw [← hm]
    rfl
  all_goals
    rw [ha, hb, mergedAt?] at hkey
    rw [← Option.some.inj hkey]
    rfl

section Entries

variable (has : Value.KeysDiffer (as.map Prod.fst)) (hbs : Value.KeysDiffer (bs.map Prod.fst))
  (hcs : Value.KeysDiffer (cs.map Prod.fst)) (habs : mergeEntries [] as bs = .ok abs)
  (hassoc : ∀ key, mergedAt? (Value.get? abs key) (Value.get? cs key) =
    (mergedAt? (Value.get? bs key) (Value.get? cs key)).bind (mergedAt? (Value.get? as key)))
include has hbs hcs habs hassoc

/-- Three mappings that are merged in either order become the same mapping. -/
theorem mergeEntries_unique (hr : mergeEntries [] abs cs = .ok r)
    (hbcs : mergeEntries [] bs cs = .ok bcs) (hr' : mergeEntries [] as bcs = .ok r') : r = r' := by
  have hdiffer := keysDiffer_of_mergeEntries hbs hcs hbcs
  refine Value.entries_ext ?_
    (keysDiffer_of_mergeEntries (keysDiffer_of_mergeEntries has hbs habs) hcs hr) fun key => ?_
  · have hnew : (cs.map Prod.fst).filter (fun key => (Value.get? abs key).isNone) =
        ((cs.map Prod.fst).filter fun key => (Value.get? bs key).isNone).filter
          fun key => (Value.get? as key).isNone := by
      rw [List.filter_filter]
      exact List.filter_congr fun key _ => get?_isNone_of_mergeEntries hbs habs key
    rw [keys_of_mergeEntries hcs hr, keys_of_mergeEntries hbs habs,
      keys_of_mergeEntries hdiffer hr', keys_of_mergeEntries hcs hbcs, List.filter_append, hnew,
        List.append_assoc]
  · have hkey := hassoc key
    rw [mergedAt?_get? hcs hr, mergedAt?_get? hcs hbcs, Option.bind_some,
      mergedAt?_get? hdiffer hr'] at hkey
    exact Option.some.inj hkey

/-- **Three mappings are merged in either order alike**, if the values under every key are. -/
theorem mergeEntries_assoc : (mergeEntries [] abs cs).toOption =
    (mergeEntries [] bs cs).toOption.bind fun bcs => (mergeEntries [] as bcs).toOption := by
  cases hr : mergeEntries [] abs cs with
  | ok r =>
    -- what succeeds from the left succeeds from the right, because it does under every key
    have hkeys : ∀ key, ∃ found,
      mergedAt? (Value.get? bs key) (Value.get? cs key) = some found ∧
        mergedAt? (Value.get? as key) found = some (Value.get? r key) := by
      intro key
      have hkey := hassoc key
      rw [mergedAt?_get? hcs hr, eq_comm, Option.bind_eq_some_iff] at hkey
      exact hkey
    obtain ⟨bcs, hbcs⟩ := exists_mergeEntries hcs [] bs fun key => by
      obtain ⟨found, hfound, -⟩ := hkeys key
      rw [hfound]
      rfl
    have hdiffer := keysDiffer_of_mergeEntries hbs hcs hbcs
    obtain ⟨r', hr'⟩ := exists_mergeEntries hdiffer [] as fun key => by
      obtain ⟨found, hfound, hout⟩ := hkeys key
      rw [mergedAt?_get? hcs hbcs] at hfound
      rw [Option.some.inj hfound, hout]
      rfl
    rw [hbcs]
    show some r = (mergeEntries [] as bcs).toOption
    rw [hr', mergeEntries_unique has hbs hcs habs hassoc hr hbcs hr']
    rfl
  | error e =>
    cases hbcs : mergeEntries [] bs cs with
    | error e' => rfl
    | ok bcs =>
      have hdiffer := keysDiffer_of_mergeEntries hbs hcs hbcs
      show none = (mergeEntries [] as bcs).toOption
      cases hr' : mergeEntries [] as bcs with
      | error e' => rfl
      | ok r' =>
        obtain ⟨r, hok⟩ := exists_mergeEntries hcs [] abs fun key => by
          rw [hassoc, mergedAt?_get? hcs hbcs, Option.bind_some, mergedAt?_get? hdiffer hr']
          rfl
        cases hr.symm.trans hok

end Entries

/-- The keys of a mapping differ, and its values have distinct keys, where the whole has. -/
theorem distinct_of_map (ha : a.bare = .map as) (h : a.distinct = true) :
    Value.KeysDiffer (as.map Prod.fst) ∧ ∀ entry ∈ as, entry.2.distinct = true := by
  rwa [← Value.distinct_bare, ha, Value.distinct, Value.distinctEntries_iff] at h

/-- **Overrides may be merged first**, where the first of them can be laid over the base. -/
theorem merged?_assoc (ha : a.distinct = true) (hb : b.distinct = true) (hc : c.distinct = true)
    (hab : merged? a b = some ab) : merged? ab c = (merged? b c).bind (merged? a) := by
  induction c using induct_mapping generalizing a b ab with
  | replaced c hplain =>
    by_cases hmappings : (a.isMapping && b.isMapping) = true
    · -- neither mapping can be merged with what is no mapping
      obtain ⟨⟨as, has⟩, bs, hbs⟩ :=
        (Bool.and_eq_true_iff.mp hmappings).imp isMapping_iff.mp
        isMapping_iff.mp
      rw [merged?_of_maps has hbs, Option.map_eq_some_iff] at hab
      obtain ⟨abs, -, rfl⟩ := hab
      rw [merged?_of_map_of_not hbs hplain, merged?_of_map_of_not rfl hplain]
      rfl
    · exact merged?_assoc_of_not hab (by simpa using hmappings) c
  | mapping c cs hcs ih =>
    by_cases hmappings : (a.isMapping && b.isMapping) = true
    · obtain ⟨⟨as, has⟩, bs, hbs⟩ :=
        (Bool.and_eq_true_iff.mp hmappings).imp isMapping_iff.mp
        isMapping_iff.mp
      rw [merged?_of_maps has hbs, Option.map_eq_some_iff] at hab
      obtain ⟨abs, habs, rfl⟩ := hab
      rw [toOption_eq_some] at habs
      obtain ⟨hda, hva⟩ := distinct_of_map has ha
      obtain ⟨hdb, hvb⟩ := distinct_of_map hbs hb
      obtain ⟨hdc, hvc⟩ := distinct_of_map hcs hc
      have hassoc : ∀ key, mergedAt? (Value.get? abs key) (Value.get? cs key) =
          (mergedAt? (Value.get? bs key) (Value.get? cs key)).bind
            (mergedAt? (Value.get? as key)) := by
        intro key
        refine mergedAt?_assoc (mergedAt?_get? hdb habs key) fun x y z xy hx hy hz hxy => ?_
        obtain ⟨entry, hentry, -, rfl⟩ := Value.exists_mem_of_get? hx
        obtain ⟨entry', hentry', -, rfl⟩ := Value.exists_mem_of_get? hy
        obtain ⟨entry'', hentry'', -, rfl⟩ := Value.exists_mem_of_get? hz
        exact ih _ hentry'' (hva _ hentry) (hvb _ hentry') (hvc _ hentry'') hxy
      rw [merged?_of_maps (rfl : (Value.map abs).bare = .map abs) hcs, merged?_of_maps hbs hcs,
        mergeEntries_assoc hda hdb hdc habs hassoc]
      cases (mergeEntries [] bs cs).toOption with
      | none => rfl
      | some bcs => exact (merged?_of_maps has rfl).symm
    · exact merged?_assoc_of_not hab (by simpa using hmappings) c

/-! ### The same override twice -/

end Config

namespace Value

mutual

/-- A value without the places of its mappings and of the values in them. -/
def unplaced : Value → Value
  | .map entries => .map (unplacedEntries entries)
  | .placed _ v => v.unplaced
  | v => v

/-- Entries without the places of their values. -/
def unplacedEntries : Entries → Entries
  | [] => []
  | (key, v) :: rest => (key, v.unplaced) :: unplacedEntries rest

end

/-- The places are taken off entry by entry. -/
theorem unplacedEntries_eq (entries : Entries) :
    unplacedEntries entries = entries.map fun entry => (entry.1, entry.2.unplaced) := by
  induction entries with
  | nil => rw [unplacedEntries, List.map_nil]
  | cons entry rest ih =>
    obtain ⟨key, v⟩ := entry
    rw [unplacedEntries, ih, List.map_cons]

/-- A mapping without places consists of its values without places. -/
theorem unplaced_of_map {v : Value} {entries : Entries} (h : v.bare = .map entries) :
    v.unplaced = .map (entries.map fun entry => (entry.1, entry.2.unplaced)) := by
  induction v using bare.induct with
  | case1 place v ih =>
    rw [unplaced]
    exact ih h
  | case2 v hplaced =>
    rw [bare] at h
    · rw [h, unplaced, unplacedEntries_eq]
    · exact hplaced

end Value

namespace Config

variable {a b ab : Value} {bs abs : Value.Entries}

/-- Mappings are not changed by what is under some of their keys already. -/
theorem mergeEntries_self (hab : Value.KeysDiffer (abs.map Prod.fst))
    (hb : Value.KeysDiffer (bs.map Prod.fst))
    (h : ∀ key o, Value.get? bs key = some o → ∃ v r, Value.get? abs key = some v ∧
      merged? v o = some r ∧ r.unplaced = v.unplaced) :
    ∃ r, mergeEntries [] abs bs = .ok r ∧
      r.map (fun entry => (entry.1, entry.2.unplaced)) =
        abs.map fun entry => (entry.1, entry.2.unplaced) := by
  -- Keys and values are compared separately: the keys stay where they are, and under each of them
  -- the merge changes nothing.
  have hkey : ∀ key, ∃ found,
    mergedAt? (Value.get? abs key) (Value.get? bs key) = some found ∧
      found.map Value.unplaced = (Value.get? abs key).map Value.unplaced := by
    intro key
    cases ho : Value.get? bs key with
    | none => exact ⟨_, by rw [mergedAt?], rfl⟩
    | some o =>
      obtain ⟨v, r, hv, hr, heq⟩ := h key o ho
      exact ⟨some r, by rw [hv, mergedAt?, hr]; rfl, by rw [hv, Option.map_some, heq]; rfl⟩
  obtain ⟨r, hr⟩ := exists_mergeEntries hb [] abs fun key => by
    obtain ⟨found, hfound, -⟩ := hkey key
    rw [hfound]
    rfl
  have hkeys : r.map Prod.fst = abs.map Prod.fst := by
    rw [keys_of_mergeEntries hb hr, List.filter_eq_nil_iff.mpr, List.append_nil]
    intro key hmem
    obtain ⟨entry, hentry, rfl⟩ := List.mem_map.mp hmem
    obtain ⟨v, r, hv, -⟩ := h _ _ (Value.get?_of_mem hb hentry)
    rw [hv]
    exact Bool.false_ne_true
  have hfst : ∀ entries : Value.Entries,
      (entries.map fun entry => (entry.1, entry.2.unplaced)).map Prod.fst =
        entries.map Prod.fst := by
    intro entries
    rw [List.map_map]
    rfl
  refine ⟨r, hr, Value.entries_ext ?_ ?_ fun key => ?_⟩
  · rw [hfst, hfst, hkeys]
  · rw [hfst, hkeys]
    exact hab
  · obtain ⟨found, hfound, heq⟩ := hkey key
    rw [mergedAt?_get? hb hr] at hfound
    rw [Value.get?_map, Value.get?_map, Option.some.inj hfound, heq]

/-- **Laying an override over a configuration twice** is laying it over once. -/
theorem merged?_self (ha : a.distinct = true) (hb : b.distinct = true)
    (hab : merged? a b = some ab) : ∃ r, merged? ab b = some r ∧ r.unplaced = ab.unplaced := by
  induction b using induct_mapping generalizing a ab with
  | replaced b hplain =>
    have hnot : (a.isMapping && b.isMapping) = false := by rw [hplain, Bool.and_false]
    obtain ⟨rfl, -⟩ := eq_of_merged? hab hnot
    have hnot' : (ab.isMapping && ab.isMapping) = false := by rw [hplain, Bool.and_false]
    exact ⟨ab, by rw [merged?_of_not hnot', if_pos (.inr rfl)], rfl⟩
  | mapping b bs hbs ih =>
    obtain ⟨hdb, hvb⟩ := distinct_of_map hbs hb
    -- what is laid over nothing is laid over itself
    have hself : ∀ entry ∈ bs, ∃ r, merged? entry.2 entry.2 = some r ∧
        r.unplaced = entry.2.unplaced := by
      intro entry hentry
      have hnull : merged? .null entry.2 = some entry.2 := by
        rw [merged?_of_not rfl, if_pos (.inl rfl)]
      exact ih entry hentry rfl (hvb entry hentry) hnull
    by_cases hmappings : (a.isMapping && b.isMapping) = true
    · obtain ⟨as, has⟩ := isMapping_iff.mp (Bool.and_eq_true_iff.mp hmappings).1
      obtain ⟨hda, hva⟩ := distinct_of_map has ha
      rw [merged?_of_maps has hbs, Option.map_eq_some_iff] at hab
      obtain ⟨abs, habs, rfl⟩ := hab
      rw [toOption_eq_some] at habs
      obtain ⟨r, hr, heq⟩ := mergeEntries_self (keysDiffer_of_mergeEntries hda hdb habs) hdb (by
        intro key o ho
        have hkey := mergedAt?_get? hdb habs key
        obtain ⟨entry, hentry, -, rfl⟩ := Value.exists_mem_of_get? ho
        rw [ho] at hkey
        cases hfound : Value.get? as key with
        | none =>
          rw [hfound, mergedAt?] at hkey
          obtain ⟨r, hr, heq⟩ := hself entry hentry
          exact ⟨_, r, (Option.some.inj hkey).symm, hr, heq⟩
        | some v =>
          obtain ⟨entry', hentry', -, rfl⟩ := Value.exists_mem_of_get? hfound
          rw [hfound, mergedAt?, Option.map_eq_some_iff] at hkey
          obtain ⟨m, hm, hout⟩ := hkey
          obtain ⟨r, hr, heq⟩ := ih entry hentry (hva _ hentry') (hvb _ hentry) hm
          exact ⟨m, r, hout.symm, hr, heq⟩)
      refine ⟨.map r, ?_, ?_⟩
      · rw [merged?_of_maps rfl hbs, hr]
        rfl
      · rw [Value.unplaced_of_map rfl, Value.unplaced_of_map rfl, heq]
    · obtain ⟨rfl, -⟩ := eq_of_merged? hab (by simpa using hmappings)
      obtain ⟨r, hr, heq⟩ := mergeEntries_self hdb hdb (by
        intro key o ho
        obtain ⟨entry, hentry, -, rfl⟩ := Value.exists_mem_of_get? ho
        obtain ⟨r, hr, heq⟩ := hself entry hentry
        exact ⟨_, r, ho, hr, heq⟩)
      refine ⟨.map r, ?_, ?_⟩
      · rw [merged?_of_maps hbs hbs, hr]
        rfl
      · rw [Value.unplaced_of_map rfl, Value.unplaced_of_map hbs, heq]

/-! ### Configurations -/

/-- Two results are the same, or both fail for reasons of one kind. -/
def SameOutcome {ε α : Type} (reason : ε → Prop) (x y : Except ε α) : Prop :=
  (∃ r, x = .ok r ∧ y = .ok r) ∨ ∃ e e', x = .error e ∧ y = .error e' ∧
    reason e ∧ reason e'

/-- Values of different types stand at one path. -/
def IsConflict (e : ConfigError) : Prop := ∃ path s t, e = .typeConflict path s t

/-- A value that cannot be replaced is in conflict. -/
theorem isConflict_of_replaceValue {path : List String} {base override : Value} {e : ConfigError}
    (h : replaceValue path base override = .error e) : IsConflict e := by
  unfold replaceValue at h
  split at h
  · cases h
  · exact ⟨_, _, _, (Except.error.inj h).symm⟩

/-- A merge that fails fails because of a conflict. -/
theorem isConflict_of_mergeValue {path : List String} {base override : Value} {e : ConfigError}
    (h : mergeValue path base override = .error e) : IsConflict e := by
  -- By induction on the override and, where both are mappings, on its entries; a conflict further
  -- down is one here.
  induction override using induct_mapping generalizing path base with
  | replaced v hplain =>
    rw [mergeValue_of_not (by rw [hplain, Bool.and_false])] at h
    exact isConflict_of_replaceValue h
  | mapping v os hos ih =>
    by_cases hbase : base.isMapping = true
    · obtain ⟨bs, hbs⟩ := isMapping_iff.mp hbase
      rw [mergeValue_of_maps hbs hos] at h
      clear hos hbs
      induction os generalizing bs with
      | nil =>
        rw [mergeEntries] at h
        cases h
      | cons entry rest ihrest =>
        obtain ⟨key, o⟩ := entry
        have ihrest := ihrest fun entry hentry => ih entry (List.mem_cons_of_mem _ hentry)
        rw [mergeEntries] at h
        split at h
        next => exact ihrest _ h
        next found _ =>
          cases hm : mergeValue (path ++ [key.text]) found o with
          | error e' =>
            rw [hm] at h
            obtain rfl := Except.error.inj h
            exact ih (key, o) List.mem_cons_self hm
          | ok m =>
            rw [hm] at h
            exact ihrest _ h
    · rw [mergeValue_of_not (by simp [hbase])] at h
      exact isConflict_of_replaceValue h

/-- Merges with the same result, if there is one, have the same outcome. -/
theorem sameOutcome_of_toOption {x y : Except ConfigError Value} (h : x.toOption = y.toOption)
    (hx : ∀ e, x = .error e → IsConflict e) (hy : ∀ e, y = .error e → IsConflict e) :
    SameOutcome IsConflict x y := by
  cases x with
  | ok r =>
    exact .inl ⟨r, rfl, toOption_eq_some.mp h.symm⟩
  | error e =>
    cases y with
    | ok r => cases h
    | error e' => exact .inr ⟨e, e', rfl, rfl, hx e rfl, hy e' rfl⟩

/-- A mapping of which something is made by a merge becomes a mapping. -/
theorem isMapping_of_merged? (ha : a.isMapping = true) (hab : merged? a b = some ab) :
    ab.isMapping = true := by
  obtain ⟨as, has⟩ := isMapping_iff.mp ha
  have hdict := typeName_of_map has
  rw [isMapping_congr (merged?_typeName hab (by rw [hdict]; decide)), ha]

/-- **Overrides may be merged first.** -/
theorem merge_assoc {c : Value} (ha : a.isMapping = true) (hb : b.isMapping = true)
    (hc : c.isMapping = true) (hda : a.distinct = true) (hdb : b.distinct = true)
    (hdc : c.distinct = true) (hab : merge a b = .ok ab) :
    SameOutcome IsConflict (merge ab c) (merge b c >>= merge a) := by
  rw [merge_eq ha hb] at hab
  have hab : merged? a b = some ab := toOption_eq_some.mpr hab
  have hbind : ∀ bc, merged? b c = some bc → merge a bc = mergeValue [] a bc := fun bc hbc =>
    merge_eq ha (isMapping_of_merged? hb hbc)
  rw [merge_eq (isMapping_of_merged? ha hab) hc, merge_eq hb hc]
  refine sameOutcome_of_toOption ?_ (fun e => isConflict_of_mergeValue) fun e he => ?_
  · rw [toOption_bind]
    refine (merged?_assoc hda hdb hdc hab).trans (Option.bind_congr fun bc hbc => ?_)
    rw [hbind bc hbc]
    rfl
  -- A conflict within the overrides comes up in both orders.
  · cases hbc : mergeValue [] b c with
    | error e' =>
      rw [hbc] at he
      obtain rfl := Except.error.inj he
      exact isConflict_of_mergeValue hbc
    | ok bc =>
      rw [hbc] at he
      have he : merge a bc = .error e := he
      rw [hbind bc (toOption_eq_some.mpr hbc)] at he
      exact isConflict_of_mergeValue he

/-! ### Files and overrides -/

/-- The mapping in a file has distinct keys. -/
theorem distinct_readFile {file : SourceFile} {f : Value} (h : readFile file = .ok f) :
    ∃ entries, f = .map entries ∧ f.distinct = true := by
  unfold readFile at h
  obtain ⟨missing, -, h⟩ := bind_eq_ok.mp h
  dsimp only at h
  -- Without a format there is no value; with one it is the value of a document, whose keys are
  -- distinct.
  split at h
  · cases h
  · split at h
    next format _ =>
      obtain ⟨text, -, h⟩ := bind_eq_ok.mp h
      obtain ⟨found, hfound, h⟩ := bind_eq_ok.mp h
      have hdistinct := Format.distinct_read (mapError_eq_ok hfound)
      rw [← Value.distinct_bare] at hdistinct
      split at h
      next =>
        obtain rfl := Except.ok.inj h
        exact ⟨[], rfl, rfl⟩
      next entries hentries =>
        obtain rfl := Except.ok.inj h
        rw [hentries] at hdistinct
        exact ⟨entries, rfl, hdistinct⟩
      next => cases h
    next => cases h

/-- Laying nothing over a configuration leaves it as it is. -/
theorem merge_nil (ha : a.isMapping = true) : merge a (.map []) = .ok a.bare := by
  obtain ⟨as, has⟩ := isMapping_iff.mp ha
  rw [merge, has]
  rfl

/-- Something laid over a mapping leaves no empty mapping. -/
theorem isTruthy_of_merge {bs : Value.Entries} (ha : a.isMapping = true)
    (hb : Value.KeysDiffer (bs.map Prod.fst)) (hbs : bs ≠ []) (hab : merge a (.map bs) = .ok ab) :
    ∃ abs, ab = .map abs ∧ ab.isTruthy = true := by
  obtain ⟨as, has⟩ := isMapping_iff.mp ha
  rw [merge_eq ha rfl, mergeValue_of_maps has rfl] at hab
  obtain ⟨abs, habs, rfl⟩ := map_eq_ok.mp hab
  refine ⟨abs, rfl, ?_⟩
  cases abs with
  | cons entry rest => rfl
  | nil =>
    -- without a key in the result there is none in the override
    exfalso
    obtain ⟨entry, rest, rfl⟩ := List.exists_cons_of_ne_nil hbs
    have hnone := get?_isNone_of_mergeEntries hb habs entry.1
    rw [Value.get?_of_mem hb List.mem_cons_self, Option.isNone_some, Bool.and_false] at hnone
    cases hnone

/-- Without a file, overrides that are not empty are laid over the defaults. -/
theorem load_none (entries : Value.Entries) : load none (.map entries) =
    if (Value.map entries).isTruthy = true then overlay defaults (.map entries)
    else .ok defaults := rfl

/-- With a file, they are laid over the defaults and the file. -/
theorem load_some {file : SourceFile} {f config : Value} (hfile : readFile file = .ok f)
    (hmerged : overlay defaults f = .ok config) (entries : Value.Entries) :
    load (some file) (.map entries) =
      if (Value.map entries).isTruthy = true then overlay config (.map entries)
      else .ok config := by
  have hnil : overlay defaults (.map []) = .ok defaults := rfl
  unfold load
  rw [hnil]
  dsimp only [bind, Except.bind]
  rw [hfile]
  dsimp only
  rw [hmerged]
  rfl

/-- A failure of a configuration because of a conflict. -/
def IsConflictFailure (failure : Failure) : Prop := ∃ e, failure = .config e ∧ IsConflict e

/-- Outcomes of merges are outcomes of overlays. -/
theorem SameOutcome.mapError {x y : Except ConfigError Value} (h : SameOutcome IsConflict x y) :
    SameOutcome IsConflictFailure (x.mapError .config) (y.mapError .config) := by
  rcases h with ⟨r, rfl, rfl⟩ | ⟨e, e', rfl, rfl, he, he'⟩
  · exact .inl ⟨r, rfl, rfl⟩
  · exact .inr ⟨_, _, rfl, rfl, ⟨e, rfl, he⟩, e', rfl, he'⟩

/-- **A file and overrides** give the configuration that their merge gives. -/
theorem load_file {file : SourceFile} {f config : Value} {entries : Value.Entries}
    (hfile : readFile file = .ok f) (hdistinct : (Value.map entries).distinct = true)
    (hmerged : overlay defaults f = .ok config) :
    SameOutcome IsConflictFailure (load (some file) (.map entries))
      (overlay f (.map entries) >>= load none) := by
  obtain ⟨fs, rfl, hdf⟩ := distinct_readFile hfile
  rw [load_some hfile hmerged]
  by_cases hnil : entries = []
  · subst hnil
    -- nothing is laid over the file, which is laid over the defaults unless it is empty
    refine .inl ⟨config, rfl, ?_⟩
    show load none (.map fs) = .ok config
    rw [load_none]
    split
    next => exact hmerged
    next hempty =>
      cases fs with
      | nil => exact hmerged
      | cons entry rest => exact absurd rfl hempty
  · have htruthy : (Value.map entries).isTruthy = true := by
      obtain ⟨entry, rest, rfl⟩ := List.exists_cons_of_ne_nil hnil
      rfl
    have hsame := (merge_assoc (rfl : defaults.isMapping = true) rfl rfl (by decide) hdf hdistinct
      (mapError_eq_ok hmerged)).mapError
    rw [if_pos htruthy]
    have hright : overlay (.map fs) (.map entries) >>= load none =
        (merge (.map fs) (.map entries) >>= merge defaults).mapError .config := by
      unfold overlay
      cases hm : merge (.map fs) (.map entries) with
      | error e => rfl
      | ok m =>
        obtain ⟨ms, rfl, hms⟩ := isTruthy_of_merge rfl (distinct_of_map rfl hdistinct).1 hnil hm
        show load none (.map ms) = overlay defaults (.map ms)
        rw [load_none, if_pos hms]
    rw [hright]
    exact hsame

/-- **Merges of configurations are associative** where the first two can be merged; merging nothing
    or the same again changes nothing.  So a file and overrides may be merged before they are laid
    over the defaults. -/
theorem layers_exact :
    (∀ a b c ab : Value, a.isMapping = true → b.isMapping = true → c.isMapping = true →
      a.distinct = true → b.distinct = true → c.distinct = true → merge a b = .ok ab →
      SameOutcome IsConflict (merge ab c) (merge b c >>= merge a)) ∧
    (∀ entries : Value.Entries, merge (.map entries) (.map []) = .ok (.map entries)) ∧
    (∀ a b ab : Value, a.isMapping = true → b.isMapping = true →
      a.distinct = true → b.distinct = true → merge a b = .ok ab →
      ∃ r, merge ab b = .ok r ∧ r.unplaced = ab.unplaced) ∧
    ∀ (file : SourceFile) (f config : Value) (entries : Value.Entries),
      readFile file = .ok f → (Value.map entries).distinct = true →
      overlay defaults f = .ok config →
      SameOutcome IsConflictFailure (load (some file) (.map entries))
        (overlay f (.map entries) >>= load none) := by
  refine ⟨?_, fun entries => merge_nil rfl, ?_, ?_⟩
  · intro a b c ab ha hb hc hda hdb hdc hab
    exact merge_assoc ha hb hc hda hdb hdc hab
  · intro a b ab ha hb hda hdb hab
    -- What is merged once more is the result of the first merge, with all places taken from it.
    rw [merge_eq ha hb] at hab
    have hab : merged? a b = some ab := toOption_eq_some.mpr hab
    obtain ⟨r, hr, heq⟩ := merged?_self hda hdb hab
    exact ⟨r, (merge_eq (isMapping_of_merged? ha hab) hb).trans (toOption_eq_some.mp hr), heq⟩
  · intro file f config entries hfile hdistinct hmerged
    exact load_file hfile hdistinct hmerged

/-- A file with one setting. -/
def singleFile : SourceFile :=
  ⟨"a.json", .file "\x7b\"a\":\"b\"\x7d".toUTF8.toList⟩

/-- What stands in the file. -/
def single : Value := .ofFields [("a", .str "b")]

/-- Overrides that take the setting away. -/
def cleared : Value.Entries := [(.str "a", .null)]

/-- The file is read. -/
theorem readFile_singleFile : readFile singleFile = .ok single := by
  -- Path, presence, text and format of the file one by one; the reading is evaluated on the text
  -- alone.
  have hparts : "a.json".splitOn "/" = ["a.json"] := by
    rw [String.splitOn, if_neg (by decide)]
    iterate 6 rw [String.splitOnAux, if_neg (by decide), if_neg (by decide)]
    rw [String.splitOnAux, if_pos (by decide)]
    decide
  have hpath : singleFile.path = ⟨"", ["a.json"]⟩ := by
    unfold SourceFile.path Path.ofString
    show Path.mk _ (List.filter _ ("a.json".splitOn "/")) = _
    rw [hparts]
    decide
  have hmissing : singleFile.isMissing = .ok false := by
    unfold SourceFile.isMissing
    rw [hpath, if_neg (by decide)]
    rfl
  have htext : singleFile.text = .ok "\x7b\"a\":\"b\"\x7d" := by
    cbv
  have hread : Format.json.read "\x7b\"a\":\"b\"\x7d" = .ok single := by
    cbv
  have hformat : Format.ofSuffix? (Path.mk "" ["a.json"]).suffix = some .json := by decide +kernel
  unfold readFile
  rw [hmissing]
  dsimp only [bind, Except.bind]
  rw [hpath, hformat, htext]
  dsimp only
  rw [hread]
  rfl

/-- A setting that is taken away conflicts with the file, before and after the file is laid over the
    defaults. -/
theorem single_layers : (∃ config, overlay defaults single = .ok config ∧
      SameOutcome IsConflict (merge config (.map cleared))
        (merge single (.map cleared) >>= merge defaults)) ∧
    SameOutcome IsConflictFailure (load (some singleFile) (.map cleared))
      (overlay single (.map cleared) >>= load none) := by
  obtain ⟨hassoc, -, -, hload⟩ := layers_exact
  obtain ⟨config, hconfig⟩ : ∃ config, merge defaults single = .ok config := ⟨_, rfl⟩
  have hoverlay : overlay defaults single = .ok config := by
    unfold overlay
    rw [hconfig]
    rfl
  refine ⟨⟨config, hoverlay, ?_⟩, ?_⟩
  · exact hassoc _ _ _ _ rfl rfl rfl (by decide) (by decide) (by decide) hconfig
  · exact hload _ _ _ _ readFile_singleFile (by decide) hoverlay

/-! ### Shape -/

/-- Layers are overrides, laid over a configuration one after another. -/
theorem overlaid_of_layers {base config : Value} {layers : List Value}
    (h : layers.foldlM overlay base = .ok config) : Overlaid base config := by
  refine foldlM_keeps (I := Overlaid base) (fun done layer next hnext hdone => ?_) h .refl
  exact hdone.trans (overlaid_of_overlay hnext).1

/-- **Configurations keep their shape**, however many layers are laid over them.  So every effective
    configuration has the sections of both targets, and wherever the defaults have a value, it has
    one of the same type. -/
theorem load_keeps_shape :
    (∀ (base : Value) (layers : List Value) (config : Value),
      layers.foldlM overlay base = .ok config → KeepsShape base config) ∧
    ∀ (file : Option SourceFile) (overrides config : Value), load file overrides = .ok config →
      (∃ sections argo vertex, config = .map sections ∧
        (Value.field? sections "argo").map Value.bare = some (.map argo) ∧
        (Value.field? sections "vertex").map Value.bare = some (.map vertex)) ∧
      ∀ keys v, defaults.at? keys = some v → ∃ w, config.at? keys = some w ∧
        SameType v w := by
  refine ⟨fun base layers config h => (overlaid_of_layers h).keepsShape, ?_⟩
  intro file overrides config h
  -- Whatever is overlaid, what comes out lies over the defaults, and the sections are read off
  -- them.
  obtain ⟨hover, sections, rfl⟩ := load_overlaid h
  constructor
  · obtain ⟨foundArgo, argo, hfoundArgo, hargo, -⟩ := exists_section hover rfl "argo" rfl
    obtain ⟨foundVertex, vertex, hfoundVertex, hvertex, -⟩ :=
      exists_section hover rfl "vertex" rfl
    refine ⟨sections, argo, vertex, rfl, ?_, ?_⟩
    · rw [hfoundArgo.field?, Option.map_some, hargo]
    · rw [hfoundVertex.field?, Option.map_some, hvertex]
  · intro keys v hv
    exact hover.keepsShape.sameType (by decide) hv

/-- Overrides in the sections of both targets, with settings that the defaults do not have. -/
def adjusted : Value.Entries := [
  (.str "argo", .ofFields [
    ("max_name_length", .int 20),
    ("workflow_annotations", .ofFields [("owner", .null)])]),
  (.str "vertex", .ofFields [("labels", .list []), ("enable_cache", .bool false)])]

/-- A file adds a section, overrides add settings to those of both targets, and the limit of names
    that they set is still a number. -/
theorem single_keeps_shape : ∃ config,
    load (some singleFile) (.map adjusted) = .ok config ∧
    [single, .map adjusted].foldlM overlay defaults = .ok config ∧
    KeepsShape defaults config ∧
    (∃ sections argo vertex, config = .map sections ∧
      (Value.field? sections "argo").map Value.bare = some (.map argo) ∧
      (Value.field? sections "vertex").map Value.bare = some (.map vertex)) ∧
    ∃ w, config.at? [.str "argo", .str "max_name_length"] = some w ∧ SameType (.int 63) w := by
  obtain ⟨filed, config, hfiled, hconfig⟩ : ∃ filed config,
      overlay defaults single = .ok filed ∧ overlay filed (.map adjusted) = .ok config :=
    ⟨_, _, rfl, rfl⟩
  have hload : load (some singleFile) (.map adjusted) = .ok config :=
    (load_some readFile_singleFile hfiled adjusted).trans hconfig
  have hlayers : [single, .map adjusted].foldlM overlay defaults = .ok config := by
    rw [List.foldlM_cons, bind_eq_ok]
    refine ⟨filed, hfiled, ?_⟩
    rw [List.foldlM_cons, bind_eq_ok]
    exact ⟨config, hconfig, rfl⟩
  obtain ⟨hkeeps, heffective⟩ := load_keeps_shape
  obtain ⟨hsections, htypes⟩ := heffective _ _ _ hload
  exact ⟨config, hload, hlayers, hkeeps _ _ _ hlayers, hsections,
    htypes [.str "argo", .str "max_name_length"] (.int 63) rfl⟩

end Config
end PipelineCompiler
