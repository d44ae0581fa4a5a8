import PipelineCompiler.Proofs.Naming.Reserved
import PipelineCompiler.Proofs.Text.Whole

namespace PipelineCompiler

/-!
# Registries that always have a name to give

Where names have a length, there is a name for every stem; and parts whose records have a text get
one of them.

* `Registry.Ready` — what a registry needs for that, with what is known of its parts;
* `Registry.Ready.define`, `Registry.Ready.intern` — every operation
  succeeds, gives a whole name and leaves the registry ready;
* `Registry.exists_reserved` — the tasks of a graph get whole names.
-/

open Text

/-- Where it is known how long names may be, there is a setting for it. -/
theorem Settings.exists_length {s : Settings} {limit : Option Int} (h : s.nameLength = .ok limit) :
    ∃ v, s.value "max_name_length" = .ok v := by
  obtain ⟨v, hv, -⟩ := bind_eq_ok.mp h
  exact ⟨v, hv⟩

/-- Where names have a length, there is a free one. -/
theorem exists_freeName {p : NamePolicy} (h : p.maxLength.isSome = true) (used : List String)
    (stem : String) : ∃ name, freeName p used stem = .ok name := by
  obtain ⟨limit, hlimit⟩ := Option.isSome_iff_exists.mp h
  unfold freeName
  dsimp only
  split
  · rw [hlimit]
    exact ⟨_, rfl⟩
  · exact ⟨_, rfl⟩

namespace Registry

variable {α : Type} {p : String × α → Prop} {r : Registry α}

/-- There is a name for every stem, the names that were given to records are whole, and all parts
    have a property. -/
structure Ready (p : String × α → Prop) (r : Registry α) : Prop where
  limited : r.names.policy.maxLength.isSome = true
  delimiter : ∀ c ∈ r.names.policy.delimiter.toList, IsLegal c
  unnamed : r.names.nameField = some "name"
  kept : ∀ entry ∈ r.names.byKey, Whole entry.2
  entries : ∀ entry ∈ r.entries, p entry

/-- A registry without parts. -/
theorem ready_empty {s : Settings} {limit : Int} (h : s.nameLength = .ok (some limit)) :
    (empty s.policy : Registry α).Ready p where
  limited := by
    rw [empty, Settings.policy, h]
    rfl
  delimiter := policy_delimiter_legal s
  unnamed := rfl
  kept := fun _ hentry => nomatch hentry
  entries := fun _ hentry => nomatch hentry

/-- A part with the property may be added under a name. -/
theorem Ready.define (h : r.Ready p) {name : String} {part : α} (hpart : p (name, part)) :
    (r.define name part).Ready p :=
  { h with
    entries := fun entry hentry => (Keyed.mem_put hentry).elim (h.entries entry) (· ▸ hpart) }

/-- **Every part whose record has a text gets a name.** -/
theorem Ready.intern (h : r.Ready p) (record : α → Value) {part : α}
    {stem : Except Failure String}
    (hstem : ∃ base, stem = .ok base)
    (htext : ∃ text, structuralText (some "name") (record part) = .ok text)
    (hpart : ∀ name, Whole name → p (name, part)) :
    ∃ name isNew r', (r.intern record stem part).result = .ok (name, isNew, r') ∧ Whole name ∧
      r'.Ready p := by
  obtain ⟨base, rfl⟩ := hstem
  obtain ⟨text, htext⟩ := htext
  obtain ⟨key, hkey⟩ : ∃ key,
      (Recorded.digest (structuralText r.names.nameField (record part))).result = .ok key :=
    ⟨Digest.sha256Hex text, by rw [h.unnamed, htext]; rfl⟩
  obtain ⟨name, names, hnames, hwhole, hready⟩ : ∃ name names,
      r.names.allocateFor (.ok base) key = .ok (name, names) ∧ Whole name ∧
        ({ r with names } : Registry α).Ready p := by
    unfold NameAllocator.allocateFor
    -- A record that was met before keeps its name; every other takes a free one, which is legal.
    cases hfind : Keyed.find? r.names.byKey key with
    | some name => exact ⟨name, r.names, rfl, h.kept _ (Keyed.mem_of_find? hfind), h⟩
    | none =>
      obtain ⟨name, hname⟩ := exists_freeName h.limited r.names.used base
      have hwhole := whole_of_legal (freeName_legal h.delimiter hname)
      refine ⟨name, { r.names with
        used := r.names.used ++ [name], byKey := r.names.byKey ++ [(key, name)] }, ?_, hwhole,
        h.limited, h.delimiter, h.unnamed, fun entry hentry => ?_, h.entries⟩
      · change (r.names.reserve base >>= _) = _
        rw [NameAllocator.reserve, hname]
        rfl
      · rcases List.mem_append.mp hentry with hentry | hentry
        · exact h.kept entry hentry
        · obtain rfl := List.mem_singleton.mp hentry
          exact hwhole
  unfold Registry.intern
  rw [Recorded.result_bind_of_ok hkey, Recorded.result_bind_of_ok (a := (name, names)) hnames]
  dsimp only
  split
  · exact ⟨name, false, _, rfl, hwhole, hready⟩
  · refine ⟨name, true, _, rfl, hwhole, { hready with entries := fun entry hentry => ?_ }⟩
    rcases List.mem_append.mp hentry with hentry | hentry
    · exact h.entries entry hentry
    · obtain rfl := List.mem_singleton.mp hentry
      exact hpart name hwhole

/-! ### Names of tasks -/

/-- Names can be given to tasks. -/
theorem exists_reserveAll {a : NameAllocator} (h : a.policy.maxLength.isSome = true)
    (names : Keyed String) (order : List String) :
    ∃ names' a', a.reserveAll names order = .ok (names', a') ∧ a'.policy = a.policy := by
  induction order generalizing a names with
  | nil => exact ⟨names, a, rfl, rfl⟩
  | cons id rest ih =>
    obtain ⟨name, hname⟩ := exists_freeName h a.used id
    obtain ⟨names', a', hrest, hpolicy⟩ :=
      ih (a := { a with used := a.used ++ [name] }) h (Keyed.put names id name)
    refine ⟨names', a', ?_, hpolicy⟩
    rw [NameAllocator.reserveAll, NameAllocator.reserve, hname]
    exact hrest

/-- **All tasks of an order get whole names**, and a registry is ready after that. -/
theorem exists_reserved {s : Settings} {limit : Int} (h : s.nameLength = .ok (some limit))
    (order : List String) :
    ∃ names a, ({ policy := s.policy } : NameAllocator).reserveAll [] order = .ok (names, a) ∧
      ({ names := a } : Registry α).Ready p ∧
      ∀ id ∈ order, ∃ name, Keyed.find? names id = some name ∧ Whole name := by
  have hempty : (empty s.policy : Registry α).Ready p := ready_empty h
  obtain ⟨names, a, hgiven, hpolicy⟩ := exists_reserveAll hempty.limited [] order
  obtain ⟨hreserved, hkeys⟩ := reserveAll_spec (reserved_empty s) hgiven
  refine ⟨names, a, hgiven, ⟨?_, hreserved.delimiter, hreserved.unnamed, fun entry hentry => ?_,
    fun _ hentry => nomatch hentry⟩, fun id hid => ?_⟩
  · rw [hpolicy]
    exact hempty.limited
  · rw [hreserved.kept] at hentry
    cases hentry
  · obtain ⟨name, hname⟩ := Keyed.exists_find?_of_mem_keys (hkeys id (.inl hid))
    exact ⟨name, hname, whole_of_legal (hreserved.legal name (hreserved.used id name hname))⟩

end Registry
end PipelineCompiler
