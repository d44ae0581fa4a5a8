import PipelineCompiler.Context
import PipelineCompiler.Proofs.Naming.Registry

namespace PipelineCompiler

/-!
# Names of tasks

The tasks of a graph get their names before any of them is compiled, one after another.

* `NameAllocator.reserveAll`, `emittedNames` — names that are given to tasks in an order;
* `Reserved`, `reserveAll_spec` — what holds when names were given to tasks and to nothing else;
* `emittedNames_inj` — different tasks get different names.
-/

/-- Gives names to tasks, behind the names that were given before. -/
def NameAllocator.reserveAll (a : NameAllocator) (names : Keyed String) :
    List String → Except Failure (Keyed String × NameAllocator)
  | [] => .ok (names, a)
  | id :: rest => do
    let (name, a) ← a.reserve id
    a.reserveAll (Keyed.put names id name) rest

/-- The names that the tasks of a graph get, by id. -/
def emittedNames (s : Settings) (order : List String) : Keyed String :=
  match ({ policy := s.policy } : NameAllocator).reserveAll [] order with
  | .ok (names, _) => names
  | .error _ => []

/-- Names were given to tasks, and that is all. -/
structure Reserved (a : NameAllocator) (names : Keyed String) : Prop where
  used : ∀ id name, Keyed.find? names id = some name → name ∈ a.used
  distinct : ∀ id id' name, Keyed.find? names id = some name →
    Keyed.find? names id' = some name → id = id'
  legal : ∀ name ∈ a.used, ∀ c ∈ name.toList, IsLegal c
  delimiter : ∀ c ∈ a.policy.delimiter.toList, IsLegal c
  unnamed : a.nameField = some "name"
  kept : a.byKey = []

/-- Names and their numbers are separated by a dash. -/
theorem policy_delimiter_legal (s : Settings) : ∀ c ∈ s.policy.delimiter.toList, IsLegal c := by
  intro c hc
  obtain rfl : c = '-' := by simpa [Settings.policy] using hc
  exact .inr rfl

/-- No names were given. -/
theorem reserved_empty (s : Settings) : Reserved { policy := s.policy } [] where
  used := fun _ _ h => nomatch h
  distinct := fun _ _ _ h => nomatch h
  legal := fun _ h => nomatch h
  delimiter := policy_delimiter_legal s
  unnamed := rfl
  kept := rfl

/-- A reserved name is new, and nothing else happens. -/
theorem reserve_eq_ok {a a' : NameAllocator} {stem name : String}
    (h : a.reserve stem = .ok (name, a')) :
    freeName a.policy a.used stem = .ok name ∧ a' = { a with used := a.used ++ [name] } := by
  unfold NameAllocator.reserve at h
  obtain ⟨free, hfree, h⟩ := bind_eq_ok.mp h
  obtain ⟨rfl, rfl⟩ := Prod.mk.inj (pure_eq_ok.mp h)
  exact ⟨hfree, rfl⟩

/-- One more name is given. -/
theorem Reserved.step {a a' : NameAllocator} {names : Keyed String} (h : Reserved a names)
    {id name : String} (hreserve : a.reserve id = .ok (name, a')) :
    Reserved a' (Keyed.put names id name) := by
  obtain ⟨hfree, rfl⟩ := reserve_eq_ok hreserve
  have hfresh := freeName_fresh hfree
  -- a name is either the new one or an old one, and the new one is in use nowhere else
  have hfind : ∀ other n, Keyed.find? (Keyed.put names id name) other = some n →
      other = id ∧ n = name ∨ other ≠ id ∧ Keyed.find? names other = some n := by
    intro other n hn
    by_cases hother : other = id
    · subst hother
      rw [Keyed.find?_put_self] at hn
      exact .inl ⟨rfl, (Option.some.inj hn).symm⟩
    · rw [Keyed.find?_put_of_ne _ _ hother] at hn
      exact .inr ⟨hother, hn⟩
  refine ⟨fun other n hn => ?_, fun x y n hx hy => ?_, fun n hn => ?_, h.delimiter, h.unnamed,
    h.kept⟩
  · rcases hfind other n hn with ⟨-, rfl⟩ | ⟨-, hn⟩
    · exact List.mem_append_right _ List.mem_cons_self
    · exact List.mem_append_left _ (h.used other n hn)
  · rcases hfind x n hx with ⟨rfl, rfl⟩ | ⟨-, hx'⟩
    · rcases hfind y n hy with ⟨rfl, -⟩ | ⟨-, hy'⟩
      · rfl
      · exact absurd (h.used y n hy') hfresh
    · rcases hfind y n hy with ⟨-, rfl⟩ | ⟨-, hy'⟩
      · exact absurd (h.used x n hx') hfresh
      · exact h.distinct x y n hx' hy'
  · rcases List.mem_append.mp hn with hn | hn
    · exact h.legal n hn
    · obtain rfl := List.mem_singleton.mp hn
      exact freeName_legal h.delimiter hfree

/-- **Names are given to all tasks of an order.** -/
theorem reserveAll_spec {a a' : NameAllocator} {names names' : Keyed String} {order : List String}
    (h : Reserved a names) (hok : a.reserveAll names order = .ok (names', a')) :
    Reserved a' names' ∧
      ∀ id, id ∈ order ∨ id ∈ Keyed.keys names → id ∈ Keyed.keys names' := by
  induction order generalizing a names with
  | nil =>
    obtain ⟨rfl, rfl⟩ := Prod.mk.inj (Except.ok.inj hok)
    exact ⟨h, fun id hid => hid.resolve_left (by simp)⟩
  | cons id rest ih =>
    unfold NameAllocator.reserveAll at hok
    obtain ⟨⟨name, next⟩, hreserve, hok⟩ := bind_eq_ok.mp hok
    obtain ⟨hreserved, hkeys⟩ := ih (h.step hreserve) hok
    refine ⟨hreserved, fun x hx => hkeys x ?_⟩
    rw [Keyed.keys_put]
    rcases hx with hx | hx
    · rcases List.mem_cons.mp hx with rfl | hx
      -- the first task has its name, whether it had one before or not
      · refine .inr ?_
        split
        · assumption
        · simp
      · exact .inl hx
    · refine .inr ?_
      split
      · exact hx
      · exact List.mem_append_left _ hx

/-- **Names that are given to tasks are not empty.** -/
theorem reserveAll_nonempty {a a' : NameAllocator} {names names' : Keyed String}
    {order : List String} (h : "" ∉ a.used) (hok : a.reserveAll names order = .ok (names', a')) :
    "" ∉ a'.used := by
  induction order generalizing a names with
  | nil =>
    obtain ⟨rfl, rfl⟩ := Prod.mk.inj (Except.ok.inj hok)
    exact h
  | cons id rest ih =>
    unfold NameAllocator.reserveAll at hok
    obtain ⟨⟨name, next⟩, hreserve, hok⟩ := bind_eq_ok.mp hok
    obtain ⟨hfree, rfl⟩ := reserve_eq_ok hreserve
    refine ih (fun hmem => ?_) hok
    rcases List.mem_append.mp hmem with hmem | hmem
    · exact h hmem
    · exact freeName_ne_empty hfree (List.mem_singleton.mp hmem).symm

/-- **Different tasks get different names.** -/
theorem emittedNames_inj {s : Settings} {order : List String} {id id' name : String}
    (h : Keyed.find? (emittedNames s order) id = some name)
    (h' : Keyed.find? (emittedNames s order) id' = some name) : id = id' := by
  cases hgiven : ({ policy := s.policy } : NameAllocator).reserveAll [] order with
  | error e =>
    rw [emittedNames, hgiven] at h
    cases h
  | ok given =>
    rw [emittedNames, hgiven] at h h'
    exact (reserveAll_spec (reserved_empty s) hgiven).1.distinct id id' name h h'

/-- A registry without parts is sound when names were given to tasks only. -/
theorem Reserved.sound {α : Type} {P : String → Prop} {record : α → Value} {r : Registry α}
    {names : Keyed String} (h : Reserved r.names names) (hentries : r.entries = []) :
    r.Sound P record where
  nodup := by
    rw [hentries]
    exact List.nodup_nil
  used := by
    intro name hname
    rw [hentries] at hname
    cases hname
  legal := h.legal
  delimiter := h.delimiter
  unnamed := h.unnamed
  kept := by
    intro entry hentry
    rw [h.kept] at hentry
    cases hentry

/-- The names of tasks are given to no records. -/
theorem Reserved.not_kept {a : NameAllocator} {names : Keyed String} (h : Reserved a names)
    (name : String) : name ∉ a.keptNames := by
  rw [NameAllocator.keptNames, h.kept]
  exact List.not_mem_nil

end PipelineCompiler
