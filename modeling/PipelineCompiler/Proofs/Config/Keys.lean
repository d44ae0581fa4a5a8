import Mathlib
import PipelineCompiler.Proofs.Config.Overlay

namespace PipelineCompiler.Value

open Config (bare_ne_placed)

/-!
# Keys of mappings

Every key has marks by which it is compared, so that being the same key is an equivalence, and a
mapping is known by its keys and by the value under each of them.

* `mark`, `marks` — what scalars and keys are compared by;
* `sameKey_iff` — two keys are the same exactly when they have the same marks;
* `get?_put`, `keys_put_of_isSome`, `put_of_get?_eq_none` — looking up what was written;
* `distinct` — a value in whose mappings no key comes twice;
* `entries_ext` — mappings with the same keys, in one order, and the same values are equal.
-/

/-! ### Equality -/

/-- A float is made of its bits. -/
theorem toBits_inj {x y : Float} (h : x.toBits = y.toBits) : x = y := by
  obtain ⟨⟨bits, hbits⟩⟩ := x
  obtain ⟨⟨bits', hbits'⟩⟩ := y
  obtain rfl : bits = bits' := h
  rfl

mutual

/-- Values that are found equal are one. -/
theorem eq_of_beqValue : ∀ {v w : Value}, v.beq w = true → v = w
  | .null, w, h | .endless, w, h => by cases w <;> simp_all [beq]
  | .bool _, w, h | .int _, w, h | .str _, w, h | .bytes _, w, h | .date _, w, h
  | .timestamp _, w, h => by cases w <;> simp_all [beq]
  | .float x, w, h => by
    cases w <;> simp only [beq, beq_iff_eq, Bool.false_eq_true] at h
    rw [toBits_inj h]
  | .list xs, w, h | .tuple xs, w, h | .set xs, w, h => by
    cases w <;> simp only [beq, Bool.false_eq_true] at h
    rw [eq_of_beqItems h]
  | .map xs, w, h => by
    cases w <;> simp only [beq, Bool.false_eq_true] at h
    rw [eq_of_beqEntries h]
  | .placed p v, w, h => by
    cases w <;> simp only [beq, Bool.false_eq_true, Bool.and_eq_true, beq_iff_eq] at h
    rw [h.1, eq_of_beqValue h.2]

theorem eq_of_beqItems : ∀ {vs ws : List Value}, beqItems vs ws = true → vs = ws
  | [], [], _ => rfl
  | [], _ :: _, h | _ :: _, [], h => by simp [beqItems] at h
  | v :: vs, w :: ws, h => by
    rw [beqItems, Bool.and_eq_true] at h
    rw [eq_of_beqValue h.1, eq_of_beqItems h.2]

theorem eq_of_beqEntries : ∀ {vs ws : List (Value × Value)}, beqEntries vs ws = true → vs = ws
  | [], [], _ => rfl
  | [], _ :: _, h | _ :: _, [], h => by simp [beqEntries] at h
  | (k, v) :: vs, (l, w) :: ws, h => by
    simp only [beqEntries, Bool.and_eq_true] at h
    rw [eq_of_beqValue h.1.1, eq_of_beqValue h.1.2, eq_of_beqEntries h.2]

end

mutual

theorem beq_self : ∀ v : Value, v.beq v = true
  | .null | .endless | .bool _ | .int _ | .str _ | .bytes _ | .date _ | .timestamp _
  | .float _ => by simp [beq]
  | .list xs | .tuple xs | .set xs => by simpa [beq] using beqItems_self xs
  | .map xs => by simpa [beq] using beqEntries_self xs
  | .placed p v => by simpa [beq] using beq_self v

theorem beqItems_self : ∀ vs : List Value, beqItems vs vs = true
  | [] => by simp [beqItems]
  | v :: vs => by simp [beqItems, beq_self v, beqItems_self vs]

theorem beqEntries_self : ∀ vs : List (Value × Value), beqEntries vs vs = true
  | [] => by simp [beqEntries]
  | (k, v) :: vs => by simp [beqEntries, beq_self k, beq_self v, beqEntries_self vs]

end

instance : LawfulBEq Value where
  eq_of_beq := eq_of_beqValue
  rfl := beq_self _

/-! ### Numbers -/

open Float.Model UnpackedFloat in
/-- A number in a form that equal numbers share: the zeros have one. -/
def unsigned : UnpackedFloat → UnpackedFloat
  | .zero _ => .zero .positive
  | u => u

open Float.Model UnpackedFloat in
/-- Numbers compare equal when they have one such form and are no NaN. -/
theorem compare_eq_iff (u v : UnpackedFloat) : u.compare v = some .eq ↔
    u ≠ .notANumber ∧ unsigned u = unsigned v := by
  cases u with
  | notANumber => simp [UnpackedFloat.compare]
  | zero s => cases v with
    | finite s' => cases s' <;> simp [UnpackedFloat.compare, unsigned]
    | infinity s' => cases s' <;> simp [UnpackedFloat.compare, unsigned]
    | _ => simp [UnpackedFloat.compare, unsigned]
  | infinity s => cases v with
    | infinity s' => cases s <;> cases s' <;> simp [UnpackedFloat.compare, unsigned] <;> decide
    | _ => cases s <;> simp [UnpackedFloat.compare, unsigned]
  | finite s m e h => cases v with
    | finite s' m' e' h' =>
      cases s <;> cases s' <;>
        simp [UnpackedFloat.compare, unsigned, Ordering.then_eq_eq, and_comm]
    | infinity s' => cases s <;> cases s' <;> simp [UnpackedFloat.compare, unsigned]
    | _ => cases s <;> simp [UnpackedFloat.compare, unsigned]

/-- The same for floats. -/
theorem float_beq_iff (x y : Float) : (x == y) = true ↔ x.isNaN = false ∧
    unsigned x.toModel.unpack = unsigned y.toModel.unpack := by
  have h : (x == y) = (x.toModel.unpack.compare y.toModel.unpack == some .eq) := rfl
  have hn : x.isNaN = x.toModel.unpack.isNaN := rfl
  rw [h, beq_iff_eq, compare_eq_iff, hn]
  cases x.toModel.unpack <;> simp [Float.Model.UnpackedFloat.isNaN]


/-! ### Keys -/

/-- What a scalar is compared by when it is a key. -/
inductive Mark where
  | whole (value : Int)
  /-- A number that is not whole.  Only NaNs are told apart by their places. -/
  | number (value : Float.Model.UnpackedFloat) (place : Option Nat)
  | moment (zoned : Bool) (instant : Int)
  | other (value : Value)

/-- The mark of a scalar. -/
def mark (a : Value) : Mark :=
  match a.whole? with
  | some i => .whole i
  | none =>
    match a.bare with
    | .float x => .number (unsigned x.toModel.unpack) (if x.isNaN then a.place? else none)
    | .timestamp t => .moment t.offset.isSome t.instant
    | v => .other v

/-- The marks of a key: that of a scalar, or those of the items of a tuple. -/
def marks (a : Value) : Mark ⊕ List Mark :=
  match a.bare with
  | .tuple items => .inr (items.map mark)
  | _ => .inl a.mark

/-- Two floats are one key when they have one mark. -/
theorem sameFloat_iff (x y : Float) (p q : Option Nat) :
    (x == y || (x.isNaN && y.isNaN && p == q)) = true ↔
      unsigned x.toModel.unpack = unsigned y.toModel.unpack ∧
        (if x.isNaN then p else none) = if y.isNaN then q else none := by
  -- Floats are told apart by what they unpack to, and all that are no numbers unpack alike.
  have hnan : ∀ z : Float, z.isNaN = true ↔ unsigned z.toModel.unpack = .notANumber := by
    intro z
    show z.toModel.unpack.isNaN = true ↔ _
    cases z.toModel.unpack <;> simp [Float.Model.UnpackedFloat.isNaN, unsigned]
  rw [Bool.or_eq_true, float_beq_iff, Bool.and_eq_true, Bool.and_eq_true, beq_iff_eq]
  cases hx : x.isNaN <;> cases hy : y.isNaN
  case false.false => simp
  case false.true =>
    have hne : unsigned x.toModel.unpack ≠ unsigned y.toModel.unpack := by
      intro heq
      rw [(hnan x).mpr (heq ▸ (hnan y).mp hy)] at hx
      cases hx
    simp [hne]
  case true.false =>
    have hne : unsigned x.toModel.unpack ≠ unsigned y.toModel.unpack := by
      intro heq
      rw [(hnan y).mpr (heq ▸ (hnan x).mp hx)] at hy
      cases hy
    simp [hne]
  case true.true => simp [(hnan x).mp hx, (hnan y).mp hy]

/-- Scalars are the same key when they have one mark. -/
theorem sameScalar_iff (a b : Value) : a.sameScalar b = true ↔ a.mark = b.mark := by
  unfold sameScalar mark
  cases a.whole? <;> cases b.whole?
  case some.some => simp
  case some.none => cases b.bare <;> simp
  case none.some => cases a.bare <;> simp
  case none.none =>
    cases a.bare <;> cases b.bare
    case float.float x y =>
      simpa only [Mark.number.injEq] using sameFloat_iff x y a.place? b.place?
    all_goals simp

/-- A place has no influence on the whole number that a value is. -/
theorem whole?_bare (a : Value) : a.bare.whole? = a.whole? := by
  induction a using bare.induct with
  | case1 place v ih => exact ih
  | case2 v hplaced => 
   rw [bare]; exact hplaced

/-- A tuple is compared by itself when it is an item. -/
theorem mark_eq_tuple_iff {a : Value} {items : List Value} :
    a.mark = .other (.tuple items) ↔ a.bare = .tuple items := by
  unfold mark
  rw [← whole?_bare]
  cases ha : a.bare with
  | bool | int => simp [whole?]
  | placed place v => exact absurd ha (bare_ne_placed a place v)
  | float => simp [whole?]; split <;> simp
  | _ => simp [whole?]

/-- Tuples are the same key when they have the same items. -/
theorem sameItems_iff (xs ys : List Value) :
    (xs.length == ys.length && (xs.zip ys).all fun pair => sameScalar pair.1 pair.2) = true ↔
      xs.map mark = ys.map mark := by
  induction xs generalizing ys with
  | nil => cases ys <;> simp
  | cons x xs ih => cases ys with
    | nil => simp
    | cons y ys => 
      have := ih ys
      simp only [Bool.and_eq_true, beq_iff_eq] at this
      simp only [List.length_cons, List.zip_cons_cons, List.all_cons, Bool.and_eq_true, beq_iff_eq,
        List.map_cons, List.cons.injEq, sameScalar_iff, ← this, Nat.add_right_cancel_iff]
      tauto

/-- **Two keys are the same** exactly when they have the same marks. -/
theorem sameKey_iff (a b : Value) : a.sameKey b = true ↔ a.marks = b.marks := by
  unfold sameKey marks
  split
  next xs ys ha hb => rw [sameItems_iff, ha, hb]; simp
  next hpair =>
    rw [sameScalar_iff]
    split
    next xs ha =>
      have hb : ∀ ys, b.bare ≠ .tuple ys := fun ys => hpair xs ys ha
      rw [mark_eq_tuple_iff.mpr ha, eq_comm, mark_eq_tuple_iff]
      split <;> simp_all
    next ha =>
      split
      next ys hb =>  rw [mark_eq_tuple_iff.mpr hb, mark_eq_tuple_iff]; simpa using ha ys
      next => simp


/-- Every key is the same as itself. -/
theorem sameKey_self (a : Value) : a.sameKey a = true := (sameKey_iff a a).mpr rfl

/-- The order in which two keys are compared does not matter. -/
theorem sameKey_comm (a b : Value) : a.sameKey b = b.sameKey a := by
  rw [Bool.eq_iff_iff, sameKey_iff, sameKey_iff, eq_comm]

/-- Keys that are the same are the same as the same keys. -/
theorem sameKey_congr {a b : Value} (h : a.sameKey b = true) (other : Value) :
    other.sameKey a = other.sameKey b := by
  rw [Bool.eq_iff_iff, sameKey_iff, sameKey_iff, (sameKey_iff a b).mp h]

/-! ### Mappings -/

section Mappings

variable {entries : Entries} {key other : Value}

/-- The same value is found under keys that are the same. -/
theorem get?_congr (h : key.sameKey other = true) (entries : Entries) :
    get? entries key = get? entries other := by
  induction entries with
  | nil => rfl
  | cons entry rest ih =>
    obtain ⟨k, v⟩ := entry
    rw [get?, get?, sameKey_congr h, ih]

/-- Nothing is found where no key is the same. -/
theorem get?_eq_none_iff : get? entries key = none ↔
    ∀ entry ∈ entries, entry.1.sameKey key = false := by
  induction entries with
  | nil => simp [get?]
  | cons entry rest ih =>
    obtain ⟨k, v⟩ := entry
    rw [get?, List.forall_mem_cons, ← ih]
    cases k.sameKey key <;> simp

/-- **What was written is found** under every key that is the same, and nothing else changes. -/
theorem get?_put (entries : Entries) (key value other : Value) :
    get? (put entries key value) other =
      if key.sameKey other then some value else get? entries other := by
  -- By induction on the entries, and the sameness of keys is symmetric and transitive.
  induction entries with
  | nil => rfl
  | cons entry rest ih =>
    obtain ⟨k, v⟩ := entry
    rw [put]
    split
    next hsame =>
      rw [get?, get?, sameKey_comm k, sameKey_comm key, sameKey_congr hsame]
      split <;> rfl
    next hother =>
      rw [get?, get?, ih]
      by_cases hk : k.sameKey other = true
      · have : key.sameKey other = false := by
          rw [← sameKey_congr hk, sameKey_comm]
          simpa using hother
        simp [hk, this]
      · simp [hk]

/-- Writing a key that is there changes no key. -/
theorem keys_put_of_isSome (h : (get? entries key).isSome) (value : Value) :
    (put entries key value).map Prod.fst = entries.map Prod.fst := by
  induction entries with
  | nil => cases h
  | cons entry rest ih =>
    obtain ⟨k, v⟩ := entry
    rw [put]
    rw [get?] at h
    split
    next => rfl
    next hother =>
      rw [if_neg hother] at h
      rw [List.map_cons, ih h, List.map_cons]

/-- A key that is not there is written at the end. -/
theorem put_of_get?_eq_none (h : get? entries key = none) (value : Value) :
    put entries key value = entries ++ [(key, value)] := by
  induction entries with
  | nil => rfl
  | cons entry rest ih =>
    obtain ⟨k, v⟩ := entry
    rw [get?_eq_none_iff, List.forall_mem_cons] at h
    rw [put, if_neg (by simp [h.1]), ih (get?_eq_none_iff.mpr h.2), List.cons_append]

end Mappings

/-! ### Distinct keys -/

/-- No key comes twice. -/
def KeysDiffer (keys : List Value) : Prop := keys.Pairwise fun a b => a.sameKey b = false

/-- The first key differs from the others, which differ among themselves. -/
theorem keysDiffer_cons {key : Value} {keys : List Value} : KeysDiffer (key :: keys) ↔
    (∀ other ∈ keys, key.sameKey other = false) ∧ KeysDiffer keys := List.pairwise_cons

mutual

/-- Whether no mapping has a key twice, as far as mappings stand inside mappings. -/
def distinct : Value → Bool
  | .map entries => distinctEntries entries
  | .placed _ v => v.distinct
  | _ => true

/-- Whether no key comes twice, neither here nor in the values. -/
def distinctEntries : Entries → Bool
  | [] => true
  | (key, v) :: rest => (get? rest key).isNone && v.distinct && distinctEntries rest

end

/-- A place has no influence on the keys. -/
theorem distinct_bare (v : Value) : v.bare.distinct = v.distinct := by
  induction v using bare.induct with
  | case1 place v ih => rw [bare, ih, distinct]
  | case2 v hplaced =>
    rw [bare]
    exact hplaced

/-- Entries are distinct when their keys differ and their values are distinct. -/
theorem distinctEntries_iff {entries : Entries} : distinctEntries entries = true ↔
    KeysDiffer (entries.map Prod.fst) ∧ ∀ entry ∈ entries, entry.2.distinct = true := by
  induction entries with
  | nil => simp [distinctEntries, KeysDiffer]
  | cons entry rest ih =>
    obtain ⟨key, v⟩ := entry
    have hkey : (get? rest key).isNone = true ↔
        ∀ k ∈ rest.map Prod.fst, key.sameKey k = false := by
      rw [Option.isNone_iff_eq_none, get?_eq_none_iff]
      simp only [List.forall_mem_map, sameKey_comm key]
    rw [distinctEntries, Bool.and_eq_true, Bool.and_eq_true, ih, hkey, List.map_cons,
      keysDiffer_cons, List.forall_mem_cons]
    tauto

section Distinct

variable {entries others : Entries}

/-- A value is found under a key only where there is an entry with the key. -/
theorem exists_mem_of_get? {key v : Value} (h : get? entries key = some v) :
    ∃ entry ∈ entries, entry.1.sameKey key = true ∧ entry.2 = v := by
  induction entries with
  | nil => cases h
  | cons entry rest ih =>
    obtain ⟨k, w⟩ := entry
    rw [get?] at h
    split at h
    next hsame => exact ⟨_, List.mem_cons_self, hsame, Option.some.inj h⟩
    next =>
      obtain ⟨found, hfound, hkey⟩ := ih h
      exact ⟨found, List.mem_cons_of_mem _ hfound, hkey⟩

/-- Where no key comes twice, every entry is found. -/
theorem get?_of_mem (h : KeysDiffer (entries.map Prod.fst)) {entry : Value × Value}
    (hentry : entry ∈ entries) : get? entries entry.1 = some entry.2 := by
  induction entries with
  | nil => cases hentry
  | cons first rest ih =>
    obtain ⟨k, w⟩ := first
    obtain ⟨hfirst, hrest⟩ := List.pairwise_cons.mp h
    rw [get?]
    rcases List.mem_cons.mp hentry with rfl | hentry
    · rw [if_pos (sameKey_self k)]
    · have hne := hfirst entry.1 (List.mem_map_of_mem hentry)
      rw [if_neg (by simp [hne]), ih hrest hentry]

/-- **Mappings are equal** when they have the same keys in the same order, none of them twice,
    and the same value under every key. -/
theorem entries_ext (hkeys : entries.map Prod.fst = others.map Prod.fst)
    (hdiffer : KeysDiffer (entries.map Prod.fst))
    (h : ∀ key, get? entries key = get? others key) : entries = others := by
  -- Every list of entries is determined by its keys and by what is found under them.
  have hentry : ∀ es : Entries, KeysDiffer (es.map Prod.fst) →
      es.map some = es.map fun entry => (get? es entry.1).map (Prod.mk entry.1) := by
    intro es hes
    refine List.map_congr_left fun entry hentry => ?_
    rw [get?_of_mem hes hentry, Option.map_some]
  have hmap : ∀ es fs : Entries,
      (es.map fun entry => (get? fs entry.1).map (Prod.mk entry.1)) =
        (es.map Prod.fst).map fun key => (get? fs key).map (Prod.mk key) := by
    intro es fs
    rw [List.map_map]
    rfl
  have hsome : entries.map some = others.map some := by
    rw [hentry entries hdiffer, hentry others (hkeys ▸ hdiffer), hmap, hmap, hkeys]
    simp only [h]
  exact (Option.some_injective _).list_map hsome

/-- A value under a key is looked up before or after every value is changed. -/
theorem get?_map (f : Value → Value) (entries : Entries) (key : Value) :
    get? (entries.map fun entry => (entry.1, f entry.2)) key = (get? entries key).map f := by
  induction entries with
  | nil => rfl
  | cons entry rest ih =>
    obtain ⟨k, v⟩ := entry
    rw [List.map_cons, get?, get?, ih]
    split <;> rfl

end Distinct

end PipelineCompiler.Value
