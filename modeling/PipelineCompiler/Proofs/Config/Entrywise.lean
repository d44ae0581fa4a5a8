import PipelineCompiler.Proofs.Config.Keys

namespace PipelineCompiler.Config

/-!
# Merges, entry by entry

A merge of mappings treats every key by itself.  What comes out under a key depends only on the
values that both sides have there, and the merge fails at the first entry of the override whose
value cannot be merged.

* `induct_mapping` — induction over the mappings in a value;
* `mergeValue_of_maps`, `mergeValue_of_not` — a merge is one of entries, or a replacement;
* `merged?`, `mergedAt?` — what a merge makes of two values, and of two that may be missing;
* `mergedAt?_get?`, `keys_of_mergeEntries` — the values and the keys of a merge of mappings;
* `exists_mergeEntries`, `exists_of_mergeEntries_error` — when it succeeds, and where it fails.
-/

/-! ### Values -/

/-- A mapping is a mapping without its place. -/
theorem isMapping_iff {v : Value} : v.isMapping = true ↔ ∃ entries, v.bare = .map entries := by
  unfold Value.isMapping
  split
  next entries h => simp [h]
  next h => simpa using h

/-- A mapping has the type of mappings. -/
theorem typeName_of_map {v : Value} {entries : Value.Entries} (h : v.bare = .map entries) :
    v.typeName = "dict" := by
  rw [← typeName_bare, h]
  rfl

/-- A value is no smaller than without its place. -/
theorem sizeOf_bare_le (v : Value) : sizeOf v.bare ≤ sizeOf v := by
  induction v using Value.bare.induct with
  | case1 place v ih =>
    simp only [Value.bare, Value.placed.sizeOf_spec]
    omega
  | case2 v hplaced =>
    have hbare : v.bare = v := by
      rw [Value.bare]
      exact hplaced
    exact Nat.le_of_eq (congrArg sizeOf hbare)

/-- What holds of every value that is no mapping, and of every mapping of whose values it holds,
    holds of every value. -/
theorem induct_mapping {P : Value → Prop} (replaced : ∀ v, v.isMapping = false → P v)
    (mapping : ∀ v entries, v.bare = .map entries → (∀ entry ∈ entries, P entry.2) → P v)
    (v : Value) : P v := by
  by_cases hv : v.isMapping = true
  · obtain ⟨entries, hentries⟩ := isMapping_iff.mp hv
    exact mapping v entries hentries fun entry hentry => induct_mapping replaced mapping entry.2
  · exact replaced v (by simpa using hv)
termination_by sizeOf v
decreasing_by
  have hle := sizeOf_bare_le v
  have hlt := List.sizeOf_lt_of_mem hentry
  rw [hentries, Value.map.sizeOf_spec] at hle
  obtain ⟨key, w⟩ := entry
  simp only [Prod.mk.sizeOf_spec] at hlt ⊢
  omega

variable {path : List String} {base override : Value}

/-- Mappings are merged. -/
theorem mergeValue_of_maps {bs os : Value.Entries} (hb : base.bare = .map bs)
    (ho : override.bare = .map os) (path : List String) :
    mergeValue path base override = (mergeEntries path bs os).map .map := by
  induction override using Value.bare.induct with
  | case1 place v ih =>
    have hmapping : (base.isMapping && v.isMapping) = true := by
      rw [Bool.and_eq_true, isMapping_iff, isMapping_iff]
      exact ⟨⟨bs, hb⟩, ⟨os, ho⟩⟩
    rw [mergeValue, if_pos hmapping]
    exact ih ho
  | case2 v hplaced =>
    rw [Value.bare] at ho
    · subst ho
      rw [mergeValue, hb]
    · exact hplaced

/-- Whatever is not merged is replaced. -/
theorem mergeValue_of_not (h : (base.isMapping && override.isMapping) = false)
    (path : List String) : mergeValue path base override = replaceValue path base override := by
  cases override with
  | map os =>
    rw [mergeValue]
    split
    next bs hb => simp [Value.isMapping, hb, Value.bare] at h
    next => rfl
  | placed place v =>
    have hmapping : (base.isMapping && v.isMapping) = false := h
    rw [mergeValue, hmapping]
    rfl
  | _ => rw [mergeValue] <;> simp

/-! ### Entries -/

/-- What a merge makes of two values, if they can be merged. -/
def merged? (base override : Value) : Option Value := (mergeValue [] base override).toOption

/-- What a merge makes of the values under one key, either of which may be missing; nothing when
    they cannot be merged. -/
def mergedAt? : Option Value → Option Value → Option (Option Value)
  | base, none => some base
  | none, some override => some (some override)
  | some base, some override => (merged? base override).map some

variable {bs os out : Value.Entries} {key o : Value} {rest : List (Value × Value)}

/-- Whether something comes out of two steps. -/
theorem toOption_bind {ε α β : Type} (x : Except ε α) (f : α → Except ε β) :
    (x >>= f).toOption = x.toOption.bind fun a => (f a).toOption := by
  cases x <;> rfl

/-- Whether something comes out of a result that is changed. -/
theorem toOption_map {ε α β : Type} (x : Except ε α) (f : α → β) :
    (x.map f).toOption = x.toOption.map f := by
  cases x <;> rfl

/-- Whether entries can be merged, and what comes out, does not depend on where they stand. -/
theorem mergeEntries_toOption
    (h : ∀ entry ∈ os, ∀ path base, (mergeValue path base entry.2).toOption =
      merged? base entry.2)
    (path : List String) (bs : Value.Entries) :
    (mergeEntries path bs os).toOption = (mergeEntries [] bs os).toOption := by
  -- By induction on the entries; a new key is added, and under an old one, the merged value does
  -- not depend on the path.
  induction os generalizing bs with
  | nil => rw [mergeEntries, mergeEntries]
  | cons entry rest ih =>
    obtain ⟨key, o⟩ := entry
    have ih := ih fun entry hentry => h entry (List.mem_cons_of_mem _ hentry)
    rw [mergeEntries, mergeEntries]
    cases Value.get? bs key with
    | none => exact ih _
    | some b =>
      have hfirst := h _ List.mem_cons_self
      simp only [toOption_bind]
      rw [hfirst, hfirst]
      exact congrArg _ (funext fun m => ih _)

/-- Nor does it for values. -/
theorem mergeValue_toOption (path : List String) (base override : Value) :
    (mergeValue path base override).toOption = merged? base override := by
  induction override using induct_mapping generalizing path base with
  | replaced v hv =>
    have hnot : (base.isMapping && v.isMapping) = false := by rw [hv, Bool.and_false]
    rw [merged?, mergeValue_of_not hnot, mergeValue_of_not hnot, replaceValue, replaceValue]
    split <;> rfl
  | mapping v entries hentries ih =>
    by_cases hbase : base.isMapping = true
    · obtain ⟨bs, hbs⟩ := isMapping_iff.mp hbase
      rw [merged?, mergeValue_of_maps hbs hentries, mergeValue_of_maps hbs hentries, toOption_map,
        toOption_map, mergeEntries_toOption fun entry hentry => ih entry hentry]
    · have hnot : (base.isMapping && v.isMapping) = false := by simp [hbase]
      rw [merged?, mergeValue_of_not hnot, mergeValue_of_not hnot, replaceValue, replaceValue]
      split <;> rfl

/-- Mappings can be merged when their entries can. -/
theorem merged?_of_maps (hb : base.bare = .map bs) (ho : override.bare = .map os) :
    merged? base override = (mergeEntries [] bs os).toOption.map .map := by
  rw [merged?, mergeValue_of_maps hb ho, toOption_map]

/-- Whatever is not merged can be replaced when it is null or of the same type. -/
theorem merged?_of_not (h : (base.isMapping && override.isMapping) = false) :
    merged? base override =
      if base.typeName = "NoneType" ∨ base.typeName = override.typeName then some override
      else none := by
  rw [merged?, mergeValue_of_not h, replaceValue]
  split <;> rfl

/-- An entry that can be merged is written, and the entries behind it are merged. -/
theorem mergeEntries_cons_of_some {m : Value}
    (h : mergedAt? (Value.get? bs key) (some o) = some (some m)) (path : List String) :
    mergeEntries path bs ((key, o) :: rest) = mergeEntries path (Value.put bs key m) rest := by
  rw [mergeEntries]
  cases hfound : Value.get? bs key with
  | none =>
    rw [hfound, mergedAt?] at h
    obtain rfl := Option.some.inj (Option.some.inj h)
    rfl
  | some b =>
    rw [hfound, mergedAt?, Option.map_eq_some_iff] at h
    obtain ⟨m', hm', heq⟩ := h
    obtain rfl := Option.some.inj heq
    rw [← mergeValue_toOption (path ++ [key.text]), toOption_eq_some] at hm'
    show (mergeValue _ b o >>= _) = _
    rw [hm']
    rfl

/-- An entry that cannot be merged fails, where it stands. -/
theorem mergeEntries_cons_of_none (h : mergedAt? (Value.get? bs key) (some o) = none)
    (path : List String) (rest : List (Value × Value)) : ∃ b e, Value.get? bs key = some b ∧
    merged? b o = none ∧
      mergeValue (path ++ [key.text]) b o = .error e ∧
      mergeEntries path bs ((key, o) :: rest) = .error e := by
  rw [mergeEntries]
  cases hfound : Value.get? bs key with
  | none =>
    rw [hfound] at h
    cases h
  | some b =>
    rw [hfound, mergedAt?, Option.map_eq_none_iff] at h
    -- With a path or without one, merging fails; and with one, there is an error to name.
    have hm := (mergeValue_toOption (path ++ [key.text]) b o).trans h
    cases he : mergeValue (path ++ [key.text]) b o with
    | ok m =>
      rw [he] at hm
      cases hm
    | error e =>
      refine ⟨b, e, rfl, h, he, ?_⟩
      show (mergeValue _ b o >>= _) = _
      rw [he]
      rfl

/-- An entry can be merged, or it cannot. -/
theorem mergedAt?_cases (base : Option Value) (o : Value) :
    mergedAt? base (some o) = none ∨ ∃ m, mergedAt? base (some o) = some (some m) := by
  cases base with
  | none => exact .inr ⟨o, rfl⟩
  | some b =>
    rw [mergedAt?]
    cases merged? b o with
    | none => exact .inl rfl
    | some m => exact .inr ⟨m, rfl⟩

/-- Where no key comes twice, no entry behind the first one has its key. -/
theorem get?_eq_none_of_differ (hdiffer : Value.KeysDiffer (key :: rest.map Prod.fst))
    {other : Value} (hsame : key.sameKey other = true) : Value.get? rest other = none := by
  rw [← Value.get?_congr hsame, Value.get?_eq_none_iff]
  intro entry hentry
  rw [Value.sameKey_comm]
  exact (Value.keysDiffer_cons.mp hdiffer).1 _ (List.mem_map_of_mem hentry)

section Differ

variable (hdiffer : Value.KeysDiffer (os.map Prod.fst))
include hdiffer

/-- **What a merge makes of mappings**, key by key. -/
theorem mergedAt?_get? (h : mergeEntries path bs os = .ok out) (key : Value) :
    mergedAt? (Value.get? bs key) (Value.get? os key) = some (Value.get? out key) := by
  -- By induction on the override.  The first entry writes its own key only, and the others have
  -- different keys.
  induction os generalizing bs with
  | nil =>
    rw [mergeEntries] at h
    obtain rfl := Except.ok.inj h
    rfl
  | cons entry rest ih =>
    obtain ⟨k, o⟩ := entry
    obtain ⟨hk, hrest⟩ := Value.keysDiffer_cons.mp hdiffer
    rcases mergedAt?_cases (Value.get? bs k) o with hm | ⟨m, hm⟩
    · obtain ⟨b, e, -, -, -, herror⟩ := mergeEntries_cons_of_none hm path rest
      rw [herror] at h
      cases h
    · rw [mergeEntries_cons_of_some hm] at h
      have hkey := ih hrest h
      rw [Value.get?_put] at hkey
      rw [Value.get?]
      split at hkey
      next hsame =>
        rw [get?_eq_none_of_differ hdiffer hsame, mergedAt?] at hkey
        rw [if_pos hsame, ← Value.get?_congr hsame, hm, hkey]
      next hother =>
        rw [if_neg hother]
        exact hkey

/-- The keys of a merge: those of the base, and then those that only the override has. -/
theorem keys_of_mergeEntries (h : mergeEntries path bs os = .ok out) :
    out.map Prod.fst = bs.map Prod.fst ++
      (os.map Prod.fst).filter fun key => (Value.get? bs key).isNone := by
  induction os generalizing bs with
  | nil =>
    rw [mergeEntries] at h
    obtain rfl := Except.ok.inj h
    simp
  | cons entry rest ih =>
    obtain ⟨k, o⟩ := entry
    obtain ⟨hk, hrest⟩ := Value.keysDiffer_cons.mp hdiffer
    rcases mergedAt?_cases (Value.get? bs k) o with hm | ⟨m, hm⟩
    · obtain ⟨b, e, -, -, -, herror⟩ := mergeEntries_cons_of_none hm path rest
      rw [herror] at h
      cases h
    · rw [mergeEntries_cons_of_some hm] at h
      -- the entry that was written is not among those that follow
      have hfilter : (rest.map Prod.fst).filter
            (fun key => (Value.get? (Value.put bs k m) key).isNone) =
          (rest.map Prod.fst).filter fun key => (Value.get? bs key).isNone := by
        refine List.filter_congr fun key hkey => ?_
        rw [Value.get?_put, if_neg (by simp [hk key hkey])]
      rw [ih hrest h, hfilter, List.map_cons]
      cases hfound : Value.get? bs k with
      | none =>
        rw [Value.put_of_get?_eq_none hfound, List.map_append, List.append_assoc,
          List.filter_cons_of_pos (by rw [hfound]; rfl)]
        rfl
      | some b =>
        rw [Value.keys_put_of_isSome (by rw [hfound]; rfl),
          List.filter_cons_of_neg (by simp [hfound])]

/-- Mappings can be merged when the values under every key can. -/
theorem exists_mergeEntries (path : List String) (bs : Value.Entries)
    (h : ∀ key, (mergedAt? (Value.get? bs key) (Value.get? os key)).isSome) :
    ∃ out, mergeEntries path bs os = .ok out := by
  -- By induction on the entries.  What was merged first is in the way of no other key, since no two
  -- keys are the same.
  induction os generalizing bs with
  | nil => exact ⟨bs, by rw [mergeEntries]⟩
  | cons entry rest ih =>
    obtain ⟨k, o⟩ := entry
    have hfirst := h k
    rw [Value.get?, if_pos (Value.sameKey_self k)] at hfirst
    rcases mergedAt?_cases (Value.get? bs k) o with hm | ⟨m, hm⟩
    · rw [hm] at hfirst
      cases hfirst
    · rw [mergeEntries_cons_of_some hm]
      refine ih (Value.keysDiffer_cons.mp hdiffer).2 _ fun key => ?_
      by_cases hsame : k.sameKey key = true
      · rw [get?_eq_none_of_differ hdiffer hsame]
        rfl
      · have hkey := h key
        rw [Value.get?, if_neg hsame] at hkey
        rw [Value.get?_put, if_neg hsame]
        exact hkey

/-- **Where a merge of mappings fails**: at the first entry of the override that cannot be
    merged. -/
theorem exists_of_mergeEntries_error {e : ConfigError} (h : mergeEntries path bs os = .error e) :
    ∃ before key o after b, os = before ++ (key, o) :: after ∧ Value.get? bs key = some b ∧
      merged? b o = none ∧ mergeValue (path ++ [key.text]) b o = .error e ∧
      ∀ entry ∈ before, (mergedAt? (Value.get? bs entry.1) (some entry.2)).isSome := by
  -- By induction on the override: the first entry fails, or it can be merged and does not disturb
  -- what the others find.
  induction os generalizing bs with
  | nil =>
    rw [mergeEntries] at h
    cases h
  | cons entry rest ih =>
    obtain ⟨k, o⟩ := entry
    obtain ⟨hk, hrest⟩ := Value.keysDiffer_cons.mp hdiffer
    rcases mergedAt?_cases (Value.get? bs k) o with hm | ⟨m, hm⟩
    · obtain ⟨b, e', hfound, hnone, hvalue, herror⟩ :=
        mergeEntries_cons_of_none hm path rest
      obtain rfl := Except.error.inj (herror.symm.trans h)
      exact ⟨[], k, o, rest, b, rfl, hfound, hnone, hvalue, List.forall_mem_nil _⟩
    · rw [mergeEntries_cons_of_some hm] at h
      obtain ⟨before, key, o', after, b, rfl, hfound, hnone, hvalue, hbefore⟩ := ih hrest h
      have hput : ∀ other ∈ (before ++ (key, o') :: after).map Prod.fst,
          Value.get? (Value.put bs k m) other = Value.get? bs other := by
        intro other hother
        rw [Value.get?_put, if_neg (by simp [hk other hother])]
      refine ⟨(k, o) :: before, key, o', after, b, rfl, ?_, hnone, hvalue, ?_⟩
      · rw [← hput key (by simp)]
        exact hfound
      · refine List.forall_mem_cons.mpr ⟨by rw [hm]; rfl, fun entry hentry => ?_⟩
        rw [← hput entry.1 (List.mem_map_of_mem (List.mem_append_left _ hentry))]
        exact hbefore entry hentry

end Differ

end PipelineCompiler.Config
