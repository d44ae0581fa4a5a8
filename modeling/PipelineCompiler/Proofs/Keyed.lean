import Mathlib.Data.List.Basic
import Mathlib.Data.List.Forall2
import Mathlib.Data.List.Nodup
import PipelineCompiler.Keyed

namespace PipelineCompiler

/-!
# Look-ups in keyed entries

What a look-up finds in entries that are put together or that grow.

* `Keyed.find?_append`, `Keyed.find?_eq_none_iff` — look-ups and lists of keys;
* `Keyed.put_of_not_mem` — a new key goes to the end;
* `Keyed.nodup_ofList`, `Keyed.find?_ofList_map` — entries that are written one after another;
* `Keyed.Same`, `Keyed.same_of_perm` — where keys are distinct, the order of entries does not
  matter;
* `Keyed.find?_forall₂` — entries that are related one by one;
* `Keyed.Within` — entries that only grew: whatever was found is still found;
* `Chained` — lists whose elements each have a property together with those before it;
* `nodup_concat`, `mem_insertNew`, `nodup_insertNew` — lists without repetitions;
* `exists_left_of_mem`, `forall₂_join` — lists whose elements belong together one by one.
-/

/-- A new element goes behind a list without repetitions. -/
theorem nodup_concat {α : Type u} {items : List α} {item : α} (h : items.Nodup)
    (hnew : item ∉ items) : (items ++ [item]).Nodup := by
  rw [← List.concat_eq_append]
  exact h.concat hnew

namespace Keyed

variable {α : Type u} {β : Type v}

/-- The first entries that hold a key decide what is found under it. -/
theorem find?_append (xs ys : Keyed α) (key : String) :
    find? (xs ++ ys) key = (find? xs key).or (find? ys key) := by
  induction xs with
  | nil => simp [find?]
  | cons entry rest ih =>
    obtain ⟨k, v⟩ := entry
    by_cases h : k = key
    · simp [find?, h]
    · simp [find?, h, ih]

/-- Nothing is found exactly under the keys that are not listed. -/
theorem find?_eq_none_iff {entries : Keyed α} {key : String} :
    find? entries key = none ↔ key ∉ keys entries := by
  rw [← has_iff_mem_keys, has]
  cases find? entries key with
  | none => simp
  | some v => simp

/-- What is found is an entry. -/
theorem mem_of_find? {entries : Keyed α} {key : String} {v : α}
    (h : find? entries key = some v) : (key, v) ∈ entries := by
  induction entries with
  | nil => simp [find?] at h
  | cons entry rest ih =>
    obtain ⟨k, w⟩ := entry
    by_cases hk : k = key
    · subst hk
      simp only [find?, if_true, Option.some.injEq] at h
      simp [h]
    · simp only [find?, if_neg hk] at h
      exact List.mem_cons_of_mem _ (ih h)

/-- A key under which something is found is listed. -/
theorem mem_keys_of_find? {entries : Keyed α} {key : String} {v : α}
    (h : find? entries key = some v) : key ∈ keys entries :=
  List.mem_map_of_mem (f := (·.1)) (mem_of_find? h)

/-- A listed key has an entry that is found under it. -/
theorem exists_find?_of_mem_keys {entries : Keyed α} {key : String}
    (h : key ∈ keys entries) : ∃ v, find? entries key = some v := by
  rw [← has_iff_mem_keys, has] at h
  exact Option.isSome_iff_exists.mp h

/-- Where keys are distinct, every entry is found under its key. -/
theorem find?_of_mem {entries : Keyed α} (hnd : (keys entries).Nodup) {key : String} {v : α}
    (h : (key, v) ∈ entries) : find? entries key = some v := by
  induction entries with
  | nil => simp at h
  | cons entry rest ih =>
    obtain ⟨k, w⟩ := entry
    simp only [keys, List.map_cons, List.nodup_cons] at hnd
    rcases List.mem_cons.mp h with he | hrest
    · simp only [Prod.mk.injEq] at he
      simp [find?, he.1, he.2]
    · have hne : k ≠ key := by
        rintro rfl
        exact hnd.1 (List.mem_map_of_mem (f := (·.1)) hrest)
      simp only [find?, if_neg hne]
      exact ih hnd.2 hrest

/-- A function on the values does not change where they are found. -/
theorem find?_map (f : String → α → β) (entries : Keyed α) (key : String) :
    find? (entries.map fun entry => (entry.1, f entry.1 entry.2)) key
      = (find? entries key).map (f key) := by
  induction entries with
  | nil => rfl
  | cons entry rest ih =>
    obtain ⟨k, v⟩ := entry
    by_cases h : k = key
    · simp [find?, h]
    · simp [find?, h, ih]

/-- A new key goes to the end. -/
theorem put_of_not_mem {entries : Keyed α} {key : String} (h : key ∉ keys entries) (v : α) :
    put entries key v = entries ++ [(key, v)] := by
  induction entries with
  | nil => rfl
  | cons entry rest ih =>
    obtain ⟨k, w⟩ := entry
    simp only [keys, List.map_cons, List.mem_cons, not_or] at h
    have hk : k ≠ key := fun he => h.1 he.symm
    simp [put, hk, ih h.2]

/-- Writing a key leaves keys distinct. -/
theorem nodup_put {entries : Keyed α} (h : (keys entries).Nodup) (key : String) (v : α) :
    (keys (put entries key v)).Nodup := by
  rw [keys_put]
  split
  next => exact h
  next hnew => exact nodup_concat h hnew

/-- Keys under which something was written one after another are distinct. -/
theorem nodup_ofList (entries : List (String × α)) : (keys (ofList entries)).Nodup := by
  suffices hfrom : ∀ done : Keyed α, (keys done).Nodup →
      (keys (entries.foldl (fun done entry => put done entry.1 entry.2) done)).Nodup from
    hfrom [] List.nodup_nil
  induction entries with
  | nil => exact fun _ h => h
  | cons entry rest ih => exact fun done h => ih _ (nodup_put h entry.1 entry.2)

/-- What was written under keys one after another, if it is made from the keys. -/
theorem find?_ofList_map (f : String → α) (items : List String) (key : String) :
    find? (ofList (items.map fun item => (item, f item))) key =
      if key ∈ items then some (f key) else none := by
  suffices hfrom : ∀ done : Keyed α,
      find? ((items.map fun item => (item, f item)).foldl
        (fun done entry => put done entry.1 entry.2) done) key =
          if key ∈ items then some (f key) else find? done key from hfrom []
  -- By induction on the keys; a later one with the same key would write the same value.
  induction items with
  | nil => exact fun _ => rfl
  | cons item rest ih =>
    intro done
    rw [List.map_cons, List.foldl_cons, ih]
    by_cases hrest : key ∈ rest
    · rw [if_pos hrest, if_pos (List.mem_cons_of_mem _ hrest)]
    by_cases hkey : key = item
    · subst hkey
      rw [if_neg hrest, if_pos List.mem_cons_self, find?_put_self]
    · rw [if_neg hrest, if_neg (by simp [hkey, hrest]), find?_put_of_ne _ _ hkey]

/-- An entry after a key was written is one from before or the written one. -/
theorem mem_put {entries : Keyed α} {key : String} {v : α} {entry : String × α}
    (h : entry ∈ put entries key v) : entry ∈ entries ∨ entry = (key, v) := by
  induction entries with
  | nil => exact .inr (List.mem_singleton.mp h)
  | cons first rest ih =>
    obtain ⟨k, w⟩ := first
    rw [put] at h
    split at h
    next hk =>
      subst hk
      rcases List.mem_cons.mp h with rfl | h
      · exact .inr rfl
      · exact .inl (List.mem_cons_of_mem _ h)
    next =>
      rcases List.mem_cons.mp h with rfl | h
      · exact .inl List.mem_cons_self
      · exact (ih h).imp_left (List.mem_cons_of_mem _)

/-- Entries in which the same is found. -/
def Same (xs ys : Keyed α) : Prop := ∀ key, find? xs key = find? ys key

/-- The same keys are there. -/
theorem Same.has {xs ys : Keyed α} (h : Same xs ys) (key : String) : has xs key = has ys key := by
  rw [Keyed.has, h key, Keyed.has]

/-- **Where keys are distinct, the order of entries does not matter.** -/
theorem same_of_perm {xs ys : Keyed α} (h : xs.Perm ys) (hnd : (keys xs).Nodup) : Same xs ys := by
  intro key
  have hkeys : (keys xs).Perm (keys ys) := h.map _
  have hnd' : (keys ys).Nodup := hkeys.nodup_iff.mp hnd
  cases hx : find? xs key with
  | none =>
    have hmem : key ∉ keys ys := fun hkey => find?_eq_none_iff.mp hx (hkeys.mem_iff.mpr hkey)
    exact (find?_eq_none_iff.mpr hmem).symm
  | some v => exact (find?_of_mem hnd' (h.mem_iff.mp (mem_of_find? hx))).symm

/-- Under the same keys stands what is related. -/
theorem find?_forall₂ {R : String → α → β → Prop} {xs : Keyed α} {ys : Keyed β}
    (h : List.Forall₂ (fun x y => x.1 = y.1 ∧ R x.1 x.2 y.2) xs ys) (key : String) :
    find? xs key = none ∧ find? ys key = none ∨
      ∃ v w, find? xs key = some v ∧ find? ys key = some w ∧ R key v w := by
  induction h with
  | nil => exact .inl ⟨rfl, rfl⟩
  | @cons x y _ _ hentry _ ih =>
    obtain ⟨k, v⟩ := x
    obtain ⟨k', w⟩ := y
    obtain ⟨rfl, hR⟩ := hentry
    by_cases hk : k = key
    · subst hk
      exact .inr ⟨v, w, if_pos rfl, if_pos rfl, hR⟩
    · rw [find?, if_neg hk, find?, if_neg hk]
      exact ih

/-- The keys of entries that are put together. -/
theorem keys_append (xs ys : Keyed α) : keys (xs ++ ys) = keys xs ++ keys ys := by
  simp [keys]

/-! ### Entries that grow -/

/-- Whatever is found in the first entries is found in the second ones. -/
def Within (xs ys : Keyed α) : Prop :=
  ∀ key v, find? xs key = some v → find? ys key = some v

/-- Entries that stay as they are. -/
theorem Within.refl (xs : Keyed α) : Within xs xs := fun _ _ h => h

/-- Entries that grow twice. -/
theorem Within.trans {xs ys zs : Keyed α} (h : Within xs ys) (h' : Within ys zs) :
    Within xs zs := fun key v hfind => h' key v (h key v hfind)

/-- Entries that grow at their end. -/
theorem within_append (xs ys : Keyed α) : Within xs (xs ++ ys) := by
  intro key v h
  rw [find?_append, h, Option.some_or]

/-- A new key that is written. -/
theorem within_put {entries : Keyed α} {key : String} (h : key ∉ keys entries) (v : α) :
    Within entries (put entries key v) := by
  rw [put_of_not_mem h]
  exact within_append entries _

end Keyed

/-! ### Lists that grow at their end -/

/-- Every element has a property together with the elements before it. -/
def Chained {α : Type u} (p : List α → α → Prop) (xs : List α) : Prop :=
  ∀ earlier x later, xs = earlier ++ x :: later → p earlier x

/-- There are no elements. -/
theorem chained_nil {α : Type u} (p : List α → α → Prop) : Chained p [] := by
  intro earlier x later h
  simp at h

/-- An element may be added when it has the property together with all the others. -/
theorem Chained.concat {α : Type u} {p : List α → α → Prop} {xs : List α} (h : Chained p xs)
    {y : α} (hy : p xs y) : Chained p (xs ++ [y]) := by
  intro earlier x later heq
  -- either the element is one of the others, or it is the one that was added
  rcases List.eq_nil_or_concat later with rfl | ⟨later, last, rfl⟩
  · obtain ⟨rfl, hlast⟩ := List.append_inj' heq (by simp)
    obtain ⟨rfl, -⟩ := List.cons.inj hlast
    exact hy
  · have hsplit : xs ++ [y] = (earlier ++ x :: later) ++ [last] := by simpa using heq
    obtain ⟨rfl, -⟩ := List.append_inj' hsplit (by simp)
    exact h earlier x later rfl

/-- A property may be replaced by a weaker one. -/
theorem Chained.imp {α : Type u} {p q : List α → α → Prop}
    (hpq : ∀ earlier x, p earlier x → q earlier x) {xs : List α} (h : Chained p xs) :
    Chained q xs :=
  fun earlier x later heq => hpq earlier x (h earlier x later heq)

/-! ### Lists without repetitions -/

/-- The elements after an element was added. -/
theorem mem_insertNew {α : Type u} [DecidableEq α] {items : List α} {item x : α} :
    x ∈ insertNew items item ↔ x ∈ items ∨ x = item := by
  unfold insertNew
  split
  next h => exact ⟨.inl, fun hx => hx.elim id (· ▸ h)⟩
  next => simp

/-- An element is not added twice. -/
theorem nodup_insertNew {α : Type u} [DecidableEq α] {items : List α} (h : items.Nodup)
    (item : α) : (insertNew items item).Nodup := by
  unfold insertNew
  split
  next => exact h
  next hmem => exact nodup_concat h hmem

/-- The elements of a list from which repetitions were left out. -/
theorem mem_foldl_insertNew {α : Type u} [DecidableEq α] {items start : List α} {x : α} :
    x ∈ items.foldl insertNew start ↔ x ∈ start ∨ x ∈ items := by
  induction items generalizing start with
  | nil => simp
  | cons item rest ih =>
    rw [List.foldl_cons, ih, mem_insertNew, List.mem_cons, or_assoc]

/-- A list from which repetitions were left out has none. -/
theorem nodup_foldl_insertNew {α : Type u} [DecidableEq α] {items start : List α}
    (h : start.Nodup) : (items.foldl insertNew start).Nodup := by
  induction items generalizing start with
  | nil => exact h
  | cons item rest ih => exact ih (nodup_insertNew h item)

/-! ### Lists that belong together -/

section

variable {α β γ : Type} {R : α → β → Prop}

/-- An element on the right belongs to one on the left. -/
theorem exists_left_of_mem {xs : List α} {ys : List β} (h : List.Forall₂ R xs ys) {y : β}
    (hy : y ∈ ys) : ∃ x ∈ xs, R x y := by
  induction h with
  | nil => cases hy
  | @cons x z xs ys hxz hrest ih =>
    rcases List.mem_cons.mp hy with rfl | hy
    · exact ⟨x, List.mem_cons_self, hxz⟩
    · obtain ⟨x', hx', hR⟩ := ih hy
      exact ⟨x', List.mem_cons_of_mem _ hx', hR⟩

/-- An element on the left belongs to one on the right. -/
theorem exists_right_of_mem {xs : List α} {ys : List β} (h : List.Forall₂ R xs ys) {x : α}
    (hx : x ∈ xs) : ∃ y ∈ ys, R x y := exists_left_of_mem h.flip hx

/-- Two lists that belong to a third one belong together. -/
theorem forall₂_join {S : γ → β → Prop} {T : α → γ → Prop}
    (hT : ∀ x y z, R x y → S z y → T x z) {xs : List α} {ys : List β} {zs : List γ}
    (h : List.Forall₂ R xs ys) (h' : List.Forall₂ S zs ys) : List.Forall₂ T xs zs := by
  induction h generalizing zs with
  | nil =>
    cases h'
    exact .nil
  | cons hxy _ ih =>
    cases h' with
    | cons hzy hrest => exact .cons (hT _ _ _ hxy hzy) (ih hrest)

/-- Two lists whose elements become the same become the same. -/
theorem flatMap_eq_of_forall₂ {f : α → List γ} {g : β → List γ}
    {xs : List α} {ys : List β}
    (h : List.Forall₂ (fun x y => f x = g y) xs ys) : xs.flatMap f = ys.flatMap g := by
  induction h with
  | nil => rfl
  | cons hxy _ ih => rw [List.flatMap_cons, List.flatMap_cons, hxy, ih]

end

end PipelineCompiler
