import PipelineCompiler.Proofs.Config.Entrywise

namespace PipelineCompiler

/-!
# Merges, path by path

A merge is described by what stands at the end of every path of keys, and its failure by the paths
at whose ends the values conflict.

* `Value.at?`, `Value.paths` — the value at the end of a path, and the paths, depth first;
* `Config.conflictsAt` — whether two values conflict at the end of a path;
* `Config.mergedAt?_at?` — what a merge makes of mappings, path by path;
* `Config.exists_conflict_of_error` — a merge that fails reports the first conflict;
* `Config.KeepsShape`, `Config.SameType` — the values of another configuration, changed at most in
  what they are and not in their types;
* `Config.merge_exact` — the merge of configurations.
-/

namespace Value

/-- The value at the end of a path of keys, along which there are mappings. -/
def at? : Value → List Value → Option Value
  | v, [] => some v
  | v, key :: keys =>
    match v.bare with
    | .map entries => (get? entries key).bind fun found => found.at? keys
    | _ => none

mutual

/-- The paths of keys into a value, depth first. -/
def paths : Value → List (List Value)
  | .map entries => [] :: pathsIn entries
  | .placed _ v => v.paths
  | _ => [[]]

/-- The paths of keys into the values of a mapping, depth first. -/
def pathsIn : Entries → List (List Value)
  | [] => []
  | (key, v) :: rest => v.paths.map (key :: ·) ++ pathsIn rest

end

mutual

/-- Whether a value is a text, a whole number, a switch, or a mapping of such values. -/
def isSetting : Value → Bool
  | .str _ | .int _ | .bool _ => true
  | .map entries => areSettings entries
  | .placed _ v => v.isSetting
  | _ => false

/-- Whether the values of a mapping are. -/
def areSettings : Entries → Bool
  | [] => true
  | (_, v) :: rest => v.isSetting && areSettings rest

end

variable {v : Value} {entries : Entries}

/-- A path into a mapping goes on from the value under its first key. -/
theorem at?_cons (h : v.bare = .map entries) (key : Value) (keys : List Value) :
    v.at? (key :: keys) = (get? entries key).bind fun found => found.at? keys := by
  rw [at?, h]

/-- No path goes on from a value that is no mapping. -/
theorem at?_cons_of_not (h : v.isMapping = false) (key : Value) (keys : List Value) :
    v.at? (key :: keys) = none := by
  unfold at?
  split
  next entries hentries => simp [isMapping, hentries] at h
  next => rfl

/-- A place has no influence on the paths. -/
theorem paths_bare (v : Value) : v.bare.paths = v.paths := by
  induction v using bare.induct with
  | case1 place v ih => rw [bare, ih, paths]
  | case2 v hplaced =>
    rw [bare]
    exact hplaced

/-- The first path into a value stops at once. -/
theorem exists_paths (v : Value) : ∃ below, v.paths = [] :: below := by
  rw [← paths_bare]
  cases hv : v.bare with
  | map entries => exact ⟨pathsIn entries, by rw [paths]⟩
  | placed place inner => exact absurd hv (Config.bare_ne_placed v place inner)
  | _ => exact ⟨[], by rw [paths] <;> simp⟩

/-- The paths into two mappings that are joined. -/
theorem pathsIn_append (entries others : Entries) :
    pathsIn (entries ++ others) = pathsIn entries ++ pathsIn others := by
  induction entries with
  | nil => rfl
  | cons entry rest ih =>
    obtain ⟨key, v⟩ := entry
    rw [List.cons_append, pathsIn, pathsIn, ih, List.append_assoc]

/-- A path into the values of a mapping begins with one of its keys. -/
theorem exists_of_mem_pathsIn {path : List Value} (h : path ∈ pathsIn entries) :
    ∃ entry ∈ entries, ∃ keys, path = entry.1 :: keys := by
  induction entries with
  | nil =>
    rw [pathsIn] at h
    cases h
  | cons entry rest ih =>
    obtain ⟨key, v⟩ := entry
    rw [pathsIn, List.mem_append, List.mem_map] at h
    rcases h with ⟨keys, -, rfl⟩ | h
    · exact ⟨_, List.mem_cons_self, keys, rfl⟩
    · obtain ⟨found, hfound, hpath⟩ := ih h
      exact ⟨found, List.mem_cons_of_mem _ hfound, hpath⟩

/-- A place has no influence on what may be set. -/
theorem isSetting_bare (v : Value) : v.bare.isSetting = v.isSetting := by
  induction v using bare.induct with
  | case1 place v ih => rw [bare, ih, isSetting]
  | case2 v hplaced =>
    rw [bare]
    exact hplaced

/-- The values of a mapping are settings when each is one. -/
theorem areSettings_iff : areSettings entries = true ↔
    ∀ entry ∈ entries, entry.2.isSetting = true := by
  induction entries with
  | nil => simp [areSettings]
  | cons entry rest ih => rw [areSettings, Bool.and_eq_true, ih, List.forall_mem_cons]

/-- What stands at the end of a path into settings is one. -/
theorem isSetting_at? {w : Value} {keys : List Value} (hv : v.isSetting = true)
    (h : v.at? keys = some w) : w.isSetting = true := by
  induction keys generalizing v with
  | nil =>
    rw [at?] at h
    obtain rfl := Option.some.inj h
    exact hv
  | cons key keys ih =>
    by_cases hmapping : v.isMapping = true
    · obtain ⟨entries, hentries⟩ := Config.isMapping_iff.mp hmapping
      rw [at?_cons hentries, Option.bind_eq_some_iff] at h
      obtain ⟨found, hfound, h⟩ := h
      rw [← isSetting_bare, hentries, isSetting, areSettings_iff] at hv
      obtain ⟨entry, hentry, -, rfl⟩ := exists_mem_of_get? hfound
      exact ih (hv entry hentry) h
    · rw [at?_cons_of_not (by simpa using hmapping)] at h
      cases h

end Value

namespace Config

/-- Whether a base and an override have values at the end of a path of which the one cannot be
    replaced by the other: the base has not null there, they are not both mappings, and their types
    are different. -/
def conflictsAt (base override : Value) (keys : List Value) : Bool :=
  match base.at? keys, override.at? keys with
  | some v, some w =>
    v.typeName != "NoneType" && !(v.isMapping && w.isMapping) && v.typeName != w.typeName
  | _, _ => false

variable {base override m : Value} {keys : List Value}

/-- A value that only the override has is left as it is. -/
theorem mergedAt?_none_left (o : Option Value) : mergedAt? none o = some o := by
  cases o <;> rfl

/-- What a merge makes of mappings, path by path. -/
theorem mergedAt?_at? (hdistinct : override.distinct = true) (h : merged? base override = some m)
    (keys : List Value) :
    mergedAt? (base.at? keys) (override.at? keys) = some (m.at? keys) := by
  induction keys generalizing base override m with
  | nil => rw [Value.at?, Value.at?, Value.at?, mergedAt?, h, Option.map_some]
  | cons key keys ih =>
    by_cases hmappings : (base.isMapping && override.isMapping) = true
    · obtain ⟨⟨bs, hbs⟩, os, hos⟩ :=
        (Bool.and_eq_true_iff.mp hmappings).imp isMapping_iff.mp
        isMapping_iff.mp
      rw [merged?_of_maps hbs hos, Option.map_eq_some_iff] at h
      obtain ⟨out, hout, rfl⟩ := h
      rw [← Value.distinct_bare, hos, Value.distinct, Value.distinctEntries_iff] at hdistinct
      obtain ⟨hdiffer, hvalues⟩ := hdistinct
      have hkey := mergedAt?_get? hdiffer (toOption_eq_some.mp hout) key
      rw [Value.at?_cons hbs, Value.at?_cons hos, Value.at?_cons rfl]
      cases hb : Value.get? bs key with
      | none =>
        cases ho : Value.get? os key with
        | none =>
          rw [hb, ho, mergedAt?] at hkey
          rw [← Option.some.inj hkey]
          rfl
        | some o =>
          rw [hb, ho, mergedAt?] at hkey
          rw [← Option.some.inj hkey]
          exact mergedAt?_none_left _
      | some b =>
        cases ho : Value.get? os key with
        | none =>
          rw [hb, ho, mergedAt?] at hkey
          rw [← Option.some.inj hkey]
          rfl
        | some o =>
          rw [hb, ho, mergedAt?, Option.map_eq_some_iff] at hkey
          obtain ⟨m, hm, hout⟩ := hkey
          obtain ⟨entry, hentry, -, rfl⟩ := Value.exists_mem_of_get? ho
          rw [← hout]
          exact ih (hvalues entry hentry) hm
    · rw [Bool.not_eq_true] at hmappings
      rw [merged?_of_not hmappings] at h
      split at h
      next htype =>
        obtain rfl := Option.some.inj h
        -- a base that is replaced is no mapping, or it would be merged
        have hbase : base.isMapping = false := by
          by_contra hbase
          rw [Bool.not_eq_false] at hbase
          obtain ⟨bs, hbs⟩ := isMapping_iff.mp hbase
          have hdict := typeName_of_map hbs
          obtain ⟨os, hos⟩ :=
            exists_map ((htype.resolve_left (by simp [hdict])).symm.trans hdict)
          rw [hbase, isMapping_iff.mpr ⟨os, hos⟩] at hmappings
          cases hmappings
        rw [Value.at?_cons_of_not hbase]
        exact mergedAt?_none_left _
      next => cases h

/-- The values at the end of a path conflict when one cannot be laid over the other. -/
theorem conflictsAt_iff : conflictsAt base override keys = true ↔
    ∃ v w, base.at? keys = some v ∧ override.at? keys = some w ∧ merged? v w = none ∧
      (v.isMapping && w.isMapping) = false := by
  unfold conflictsAt
  split
  -- Both values are there; the test and `merged?` then ask for the same types.
  next v w hv hw =>
    simp only [Bool.and_eq_true, bne_iff_ne, Bool.not_eq_true', hv, hw, Option.some.injEq,
      exists_and_left, exists_eq_left']
    constructor
    · rintro ⟨⟨hnull, hnot⟩, htype⟩
      rw [merged?_of_not hnot, if_neg (by simp [hnull, htype])]
      exact ⟨rfl, hnot⟩
    · rintro ⟨hnone, hnot⟩
      rw [merged?_of_not hnot] at hnone
      split at hnone
      next => cases hnone
      next htype =>
        rw [not_or] at htype
        exact ⟨⟨htype.1, hnot⟩, htype.2⟩
  next hother =>
    constructor
    · intro h
      cases h
    · rintro ⟨v, w, hv, hw, -⟩
      exact absurd hw (hother v w hv)

/-- Where a merge succeeds there is no conflict. -/
theorem conflictsAt_eq_false (hdistinct : override.distinct = true)
    (h : merged? base override = some m) (keys : List Value) :
    conflictsAt base override keys = false := by
  by_contra hconflict
  obtain ⟨v, w, hv, hw, hnone, -⟩ := conflictsAt_iff.mp (by simpa using hconflict)
  have hat := mergedAt?_at? hdistinct h keys
  rw [hv, hw, mergedAt?, hnone] at hat
  cases hat

/-- A conflict below a key is one of the values under the key. -/
theorem conflictsAt_cons {bs os : Value.Entries} {key b o : Value} (hbs : base.bare = .map bs)
    (hos : override.bare = .map os) (hb : Value.get? bs key = some b)
    (ho : Value.get? os key = some o) (keys : List Value) :
    conflictsAt base override (key :: keys) = conflictsAt b o keys := by
  rw [conflictsAt, conflictsAt, Value.at?_cons hbs, Value.at?_cons hos, hb, ho]
  rfl

/-- Mappings do not conflict themselves. -/
theorem conflictsAt_nil_of_maps {bs os : Value.Entries} (hbs : base.bare = .map bs)
    (hos : override.bare = .map os) : conflictsAt base override [] = false := by
  rw [conflictsAt, Value.at?, Value.at?]
  simp [isMapping_iff.mpr ⟨bs, hbs⟩, isMapping_iff.mpr ⟨os, hos⟩]

/-- Values that cannot be replaced conflict themselves. -/
theorem conflict_of_replaceValue_error (hnot : (base.isMapping && override.isMapping) = false)
    {path : List String} {e : ConfigError} (h : mergeValue path base override = .error e) :
    override.paths.find? (conflictsAt base override) = some [] ∧
      e = .typeConflict path base.typeName override.typeName := by
  rw [mergeValue_of_not hnot, replaceValue] at h
  split at h
  next => cases h
  next htype =>
    have hconflict : conflictsAt base override [] = true := by
      rw [conflictsAt_iff]
      exact ⟨base, override, rfl, rfl, by rw [merged?_of_not hnot, if_neg htype], hnot⟩
    obtain ⟨below, hbelow⟩ := Value.exists_paths override
    rw [hbelow, List.find?_cons_of_pos hconflict]
    exact ⟨rfl, (Except.error.inj h).symm⟩

/-- **Where a merge fails, the first conflict is reported**, depth first in the order of the
    override. -/
theorem exists_conflict_of_error (hdistinct : override.distinct = true) {path : List String}
    {e : ConfigError} (h : mergeValue path base override = .error e) :
    ∃ keys v w, override.paths.find? (conflictsAt base override) = some keys ∧
      base.at? keys = some v ∧ override.at? keys = some w ∧
      e = .typeConflict (path ++ keys.map Value.text) v.typeName w.typeName := by
  induction override using induct_mapping generalizing base path with
  | replaced w hw =>
    have hnot : (base.isMapping && w.isMapping) = false := by rw [hw, Bool.and_false]
    obtain ⟨hfirst, rfl⟩ := conflict_of_replaceValue_error hnot h
    exact ⟨[], base, w, hfirst, rfl, rfl, by rw [List.map_nil, List.append_nil]⟩
  | mapping override os hos ih =>
    by_cases hbase : base.isMapping = true
    · obtain ⟨bs, hbs⟩ := isMapping_iff.mp hbase
      rw [mergeValue_of_maps hbs hos] at h
      rw [← Value.distinct_bare, hos, Value.distinct, Value.distinctEntries_iff] at hdistinct
      obtain ⟨hdiffer, hvalues⟩ := hdistinct
      cases hentries : mergeEntries path bs os with
      | ok out =>
        rw [hentries] at h
        cases h
      | error e' =>
        rw [hentries] at h
        obtain rfl := Except.error.inj h
        obtain ⟨before, key, o, after, b, rfl, hb, hnone, hvalue, hbefore⟩ :=
          exists_of_mergeEntries_error hdiffer hentries
        have hmem : (key, o) ∈ before ++ (key, o) :: after := by simp
        have ho := Value.get?_of_mem hdiffer hmem
        obtain ⟨keys, v, w, hfirst, hv, hw, rfl⟩ := ih _ hmem (hvalues _ hmem) hvalue
        refine ⟨key :: keys, v, w, ?_, ?_, ?_, ?_⟩
        · -- nothing conflicts below the keys before
          have hnone : (Value.pathsIn before).find? (conflictsAt base override) = none := by
            rw [List.find?_eq_none]
            intro path hpath
            obtain ⟨entry, hentry, keys, rfl⟩ := Value.exists_of_mem_pathsIn hpath
            have hmem' : entry ∈ before ++ (key, o) :: after := List.mem_append_left _ hentry
            have ho' := Value.get?_of_mem hdiffer hmem'
            cases hb' : Value.get? bs entry.1 with
            | none => simp [conflictsAt, Value.at?_cons hbs, hb']
            | some b' =>
              have hmerged := hbefore entry hentry
              rw [hb', mergedAt?, Option.isSome_map, Option.isSome_iff_exists] at hmerged
              obtain ⟨m, hm⟩ := hmerged
              rw [conflictsAt_cons hbs hos hb' ho', conflictsAt_eq_false (hvalues _ hmem') hm]
              exact Bool.false_ne_true
          have hbelow : (conflictsAt base override) ∘ (key :: ·) = conflictsAt b o :=
            funext fun keys => conflictsAt_cons hbs hos hb ho keys
          rw [← Value.paths_bare, hos, Value.paths,
            List.find?_cons_of_neg (by simp [conflictsAt_nil_of_maps hbs hos]),
            Value.pathsIn_append, List.find?_append, hnone, Option.none_or, Value.pathsIn,
            List.find?_append, List.find?_map, hbelow, hfirst]
          rfl
        · rw [Value.at?_cons hbs, hb]
          exact hv
        · rw [Value.at?_cons hos, ho]
          exact hw
        · rw [List.map_cons, List.append_assoc]
          rfl
    · have hnot : (base.isMapping && override.isMapping) = false := by simp [hbase]
      obtain ⟨hfirst, rfl⟩ := conflict_of_replaceValue_error hnot h
      exact ⟨[], base, override, hfirst, rfl, rfl, by rw [List.map_nil, List.append_nil]⟩

/-! ### Shape -/

/-- The value under a key lasts in a merge. -/
theorem lasting_get? (key : Value) : Lasting fun entries v => Value.get? entries key = some v := by
  intro entries v other value hv hvalue
  have hput := Value.get?_put entries other value key
  split at hput
  next hsame => exact ⟨value, hput, hvalue v ((Value.get?_congr hsame entries).trans hv)⟩
  next => exact ⟨v, hput.trans hv, .refl⟩

/-- **A value is still at the end of its path**, overlaid. -/
theorem Overlaid.at? {v w found : Value} (h : Overlaid v w) (hfound : v.at? keys = some found) :
    ∃ other, w.at? keys = some other ∧ Overlaid found other := by
  -- By induction on the path; only mappings have something under a key.
  induction keys generalizing v w with
  | nil =>
    rw [Value.at?] at hfound
    obtain rfl := Option.some.inj hfound
    exact ⟨w, rfl, h⟩
  | cons key keys ih =>
    by_cases hmapping : v.isMapping = true
    · obtain ⟨entries, hentries⟩ := isMapping_iff.mp hmapping
      rw [Value.at?_cons hentries, Option.bind_eq_some_iff] at hfound
      obtain ⟨first, hfirst, hfound⟩ := hfound
      obtain ⟨out, next, hout, hnext, hover⟩ := h.lasting (lasting_get? key) hentries hfirst
      obtain ⟨other, hother, hover⟩ := ih hover hfound
      refine ⟨other, ?_, hover⟩
      rw [Value.at?_cons hout, hnext]
      exact hother
    · rw [Value.at?_cons_of_not (by simpa using hmapping)] at hfound
      cases hfound

/-- A configuration keeps the shape of another: it has a value at the end of every path at which
    the other has one, and a value of the same type unless the other's is null. -/
def KeepsShape (base config : Value) : Prop :=
  ∀ keys v, base.at? keys = some v →
    ∃ w, config.at? keys = some w ∧ (v.typeName = "NoneType" ∨ w.typeName = v.typeName)

/-- Overrides keep the shape of what they are laid over. -/
theorem Overlaid.keepsShape {v w : Value} (h : Overlaid v w) : KeepsShape v w := by
  intro keys found hfound
  obtain ⟨other, hother, hover⟩ := h.at? hfound
  refine ⟨other, hother, ?_⟩
  by_cases hnull : found.typeName = "NoneType"
  · exact .inl hnull
  · exact .inr (hover.typeName hnull)

/-- Values of one of the types that settings have.  A switch is no number. -/
inductive SameType (v w : Value) : Prop where
  | text {s t : String} (left : v.bare = .str s) (right : w.bare = .str t)
  | number {i j : Int} (left : v.bare = .int i) (right : w.bare = .int j)
  | switch {a b : Bool} (left : v.bare = .bool a) (right : w.bare = .bool b)
  | mapping {vs ws : Value.Entries} (left : v.bare = .map vs) (right : w.bare = .map ws)

/-- A value with the type of a setting is what the setting is. -/
theorem sameType_of_typeName {v w : Value} (hv : v.isSetting = true)
    (h : v.typeName = "NoneType" ∨ w.typeName = v.typeName) : SameType v w := by
  rw [← typeName_bare v] at h
  rw [← Value.isSetting_bare] at hv
  -- A setting has one of four types, and its name tells which.
  cases hbare : v.bare with
  | str s =>
    rw [hbare] at h
    obtain ⟨t, ht⟩ := exists_str (h.resolve_left (by simp [Value.typeName]))
    exact .text hbare ht
  | int i =>
    rw [hbare] at h
    obtain ⟨j, hj⟩ := exists_int (h.resolve_left (by simp [Value.typeName]))
    exact .number hbare hj
  | bool a =>
    rw [hbare] at h
    obtain ⟨b, hb⟩ := exists_bool (h.resolve_left (by simp [Value.typeName]))
    exact .switch hbare hb
  | map vs =>
    rw [hbare] at h
    obtain ⟨ws, hws⟩ := exists_map (h.resolve_left (by simp [Value.typeName]))
    exact .mapping hbare hws
  | placed place inner => exact absurd hbare (bare_ne_placed v place inner)
  | _ => simp [hbare, Value.isSetting] at hv

/-- Settings that keep their shape keep their types. -/
theorem KeepsShape.sameType {base config v : Value} (h : KeepsShape base config)
    (hbase : base.isSetting = true) (hv : base.at? keys = some v) :
    ∃ w, config.at? keys = some w ∧ SameType v w := by
  obtain ⟨w, hw, htype⟩ := h keys v hv
  exact ⟨w, hw, sameType_of_typeName (Value.isSetting_at? hbase hv) htype⟩

/-! ### Configurations -/

/-- The merge of configurations is the one of values, where both are mappings. -/
theorem merge_eq (hb : base.isMapping = true) (ho : override.isMapping = true) :
    merge base override = mergeValue [] base override := by
  obtain ⟨bs, hbs⟩ := isMapping_iff.mp hb
  obtain ⟨os, hos⟩ := isMapping_iff.mp ho
  rw [mergeValue_of_maps hbs hos, merge, hbs, hos]

/-- What a merge is, path by path.

* `replaced` — the override's value stands where it is no mapping, or where the base has none or
  null;
* `merged` — mappings on both sides are merged;
* `kept` — the base is unchanged where the override has no entry;
* `noOther` — no other key appears;
* `ordered` — the keys of the base come first, and then the new ones of the override. -/
structure IsMerge (base override result : Value) : Prop where
  replaced : ∀ keys w, override.at? keys = some w →
    (w.isMapping = false ∨ ∀ v, base.at? keys = some v → v.typeName = "NoneType") →
    result.at? keys = some w
  merged : ∀ keys v w, base.at? keys = some v → override.at? keys = some w →
    v.isMapping = true → w.isMapping = true →
    ∃ m, merge v w = .ok m ∧ result.at? keys = some m
  kept : ∀ keys, override.at? keys = none → result.at? keys = base.at? keys
  noOther : ∀ keys, base.at? keys = none → override.at? keys = none → result.at? keys = none
  ordered : ∀ keys v w bs os, base.at? keys = some v → override.at? keys = some w →
    v.bare = .map bs → w.bare = .map os →
    ∃ m out, result.at? keys = some m ∧ m.bare = .map out ∧
      out.map Prod.fst = bs.map Prod.fst ++
        (os.map Prod.fst).filter fun key => (Value.get? bs key).isNone

/-- The value at the end of a path has distinct keys where the whole has. -/
theorem distinct_at? {v w : Value} (hdistinct : v.distinct = true) (h : v.at? keys = some w) :
    w.distinct = true := by
  induction keys generalizing v with
  | nil =>
    rw [Value.at?] at h
    obtain rfl := Option.some.inj h
    exact hdistinct
  | cons key keys ih =>
    by_cases hv : v.isMapping = true
    · obtain ⟨entries, hentries⟩ := isMapping_iff.mp hv
      rw [Value.at?_cons hentries, Option.bind_eq_some_iff] at h
      obtain ⟨found, hfound, h⟩ := h
      rw [← Value.distinct_bare, hentries, Value.distinct, Value.distinctEntries_iff] at hdistinct
      obtain ⟨entry, hentry, -, rfl⟩ := Value.exists_mem_of_get? hfound
      exact ih (hdistinct.2 entry hentry) h
    · rw [Value.at?_cons_of_not (by simpa using hv)] at h
      cases h

/-- What a merge is, path by path. -/
theorem isMerge_of_merged? (hdistinct : override.distinct = true)
    (h : merged? base override = some m) : IsMerge base override m := by
  have hat := mergedAt?_at? hdistinct h
  -- One clause for each kind of path: where the override has the last word, where both have
  -- mappings, where it has nothing, and so on.  All are read off `mergedAt?_at?`.
  refine ⟨?_, ?_, ?_, ?_, ?_⟩
  · intro keys w hw hplain
    have hkeys := hat keys
    rw [hw] at hkeys
    cases hv : base.at? keys with
    | none =>
      rw [hv, mergedAt?] at hkeys
      exact (Option.some.inj hkeys).symm
    | some v =>
      have hnot : (v.isMapping && w.isMapping) = false := by
        rcases hplain with hw | hnull
        · rw [hw, Bool.and_false]
        · have hv' : v.isMapping = false := by
            by_contra hmapping
            obtain ⟨entries, hentries⟩ := isMapping_iff.mp (by simpa using hmapping)
            exact absurd ((typeName_of_map hentries).symm.trans (hnull v hv)) (by decide)
          rw [hv', Bool.false_and]
      rw [hv, mergedAt?, Option.map_eq_some_iff] at hkeys
      obtain ⟨m', hm', hout⟩ := hkeys
      rw [merged?_of_not hnot] at hm'
      split at hm'
      next =>
        obtain rfl := Option.some.inj hm'
        exact hout.symm
      next => cases hm'
  · intro keys v w hv hw hvmap hwmap
    have hkeys := hat keys
    rw [hv, hw, mergedAt?, Option.map_eq_some_iff] at hkeys
    obtain ⟨m', hm', hout⟩ := hkeys
    exact ⟨m', (merge_eq hvmap hwmap).trans (toOption_eq_some.mp hm'), hout.symm⟩
  · intro keys hnone
    have hkeys := hat keys
    rw [hnone] at hkeys
    cases hv : base.at? keys <;> rw [hv, mergedAt?] at hkeys <;> exact (Option.some.inj hkeys).symm
  · intro keys hv hw
    have hkeys := hat keys
    rw [hv, hw, mergedAt?] at hkeys
    exact (Option.some.inj hkeys).symm
  · intro keys v w bs os hv hw hbs hos
    have hkeys := hat keys
    rw [hv, hw, mergedAt?, Option.map_eq_some_iff] at hkeys
    obtain ⟨m', hm', hout⟩ := hkeys
    rw [merged?_of_maps hbs hos, Option.map_eq_some_iff] at hm'
    obtain ⟨out, hmerged, rfl⟩ := hm'
    have hw' := distinct_at? hdistinct hw
    rw [← Value.distinct_bare, hos, Value.distinct, Value.distinctEntries_iff] at hw'
    exact ⟨_, out, hout.symm, rfl, keys_of_mergeEntries hw'.1 (toOption_eq_some.mp hmerged)⟩

/-- **The merge of configurations**, path by path.  It fails exactly where the values at the end of
    some path conflict, and reports the first of these paths, depth first in the order of the
    override. -/
theorem merge_exact (hb : base.isMapping = true) (ho : override.isMapping = true)
    (hdistinct : override.distinct = true) :
    (∀ e, merge base override = .error e ↔ ∃ keys v w,
      override.paths.find? (conflictsAt base override) = some keys ∧
      base.at? keys = some v ∧ override.at? keys = some w ∧
      e = .typeConflict (keys.map Value.text) v.typeName w.typeName) ∧
    ((∃ e, merge base override = .error e) ↔
      ∃ keys, conflictsAt base override keys = true) ∧
    ∀ merged, merge base override = .ok merged → IsMerge base override merged := by
  rw [merge_eq hb ho]
  -- A conflict anywhere makes the whole merge fail, since a merge that succeeds says what is at
  -- every path.
  have hfails : ∀ keys, conflictsAt base override keys = true →
      ∃ e, mergeValue [] base override = .error e := by
    intro keys hkeys
    cases hmerge : mergeValue [] base override with
    | error e => exact ⟨e, rfl⟩
    | ok merged =>
      have hmerged : merged? base override = some merged := toOption_eq_some.mpr hmerge
      rw [conflictsAt_eq_false hdistinct hmerged] at hkeys
      cases hkeys
  refine ⟨fun e => ⟨exists_conflict_of_error hdistinct, ?_⟩, ⟨?_, ?_⟩, ?_⟩
  · rintro ⟨keys, v, w, hfirst, hv, hw, rfl⟩
    obtain ⟨e, he⟩ := hfails keys (List.find?_some hfirst)
    obtain ⟨keys', v', w', hfirst', hv', hw', rfl⟩ := exists_conflict_of_error hdistinct he
    obtain rfl := Option.some.inj (hfirst.symm.trans hfirst')
    obtain rfl := Option.some.inj (hv.symm.trans hv')
    obtain rfl := Option.some.inj (hw.symm.trans hw')
    exact he
  · rintro ⟨e, he⟩
    obtain ⟨keys, v, w, hfirst, -⟩ := exists_conflict_of_error hdistinct he
    exact ⟨keys, List.find?_some hfirst⟩
  · rintro ⟨keys, hkeys⟩
    exact hfails keys hkeys
  · intro merged hmerged
    exact isMerge_of_merged? hdistinct (toOption_eq_some.mpr hmerged)

/-- The settings of a target. -/
def imageSettings : Value := .ofFields [
  ("cache", .bool true),
  ("argo", .ofFields [("limit", .int 63), ("image", .null)])]

/-- Settings of which one has another type. -/
def clashingSettings : Value := .ofFields [
  ("argo", .ofFields [("image", .str "alpine"), ("limit", .str "63")]),
  ("cache", .str "yes")]

/-- Null gives way to a text, but a number does not. -/
theorem imageSettings_conflict : imageSettings.isMapping = true ∧
    clashingSettings.isMapping = true ∧ clashingSettings.distinct = true ∧
    merge imageSettings clashingSettings =
      .error (.typeConflict ["argo", "limit"] "int" "str") :=
  ⟨rfl, rfl, by decide, ((merge_exact rfl rfl (by decide)).1 _).mpr
    ⟨[.str "argo", .str "limit"], .int 63, .str "63", rfl, rfl, rfl, rfl⟩⟩

end Config
end PipelineCompiler
