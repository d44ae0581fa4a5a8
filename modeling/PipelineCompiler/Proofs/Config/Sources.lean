import PipelineCompiler.Proofs.Config.Keys
import PipelineCompiler.Proofs.Yaml.Texts

namespace PipelineCompiler

/-!
# What is read has distinct keys

No mapping that is read from a file has a key twice, in either format: an entry whose key is there
already replaces the value under the key.

* `Json.distinct_read` — what is read from JSON;
* `Yaml.Assembly.Grows`, `Yaml.Assembly.Distinct` — what the steps of an assembly keep;
* `Yaml.Follows` — the values of the shapes that are assembled;
* `Yaml.distinct_read` — what is read from YAML.
-/

namespace Value

variable {entries : Entries} {key v : Value}

/-- A value that is no mapping has no keys. -/
theorem distinct_of_not (h : v.isMapping = false) : v.distinct = true := by
  rw [← distinct_bare]
  cases hv : v.bare with
  | map entries => simp [isMapping, hv] at h
  | placed place inner => exact absurd hv (Config.bare_ne_placed v place inner)
  | _ => simp [distinct]

/-- Writing a key keeps keys distinct. -/
theorem distinctEntries_put (h : distinctEntries entries = true) (hv : v.distinct = true)
    (key : Value) : distinctEntries (put entries key v) = true := by
  induction entries with
  | nil => simp [put, distinctEntries, get?, hv]
  | cons entry rest ih =>
    obtain ⟨k, w⟩ := entry
    rw [distinctEntries, Bool.and_eq_true, Bool.and_eq_true] at h
    rw [put]
    split
    next =>
      rw [distinctEntries, h.1.1, hv, h.2]
      rfl
    next hother =>
      rw [Bool.not_eq_true, sameKey_comm] at hother
      rw [distinctEntries, ih h.2, h.1.2, get?_put, if_neg (by simp [hother]), h.1.1]
      rfl

end Value

namespace Json

/-- What a scan finds has distinct keys. -/
theorem distinct_leaf {cs rest : List Char} {v : Value} (h : leaf cs = .ok (v, rest)) :
    v.distinct = true := by
  unfold leaf at h
  split at h
  -- A word, or a number: scalars have no keys.
  next word value hword =>
    obtain ⟨rfl, -⟩ := Prod.mk.inj (Except.ok.inj h)
    have hmem := List.mem_of_find?_eq_some hword
    simp only [words, List.mem_cons, List.not_mem_nil, or_false, Prod.mk.injEq] at hmem
    obtain ⟨-, rfl⟩ | ⟨-, rfl⟩ | ⟨-, rfl⟩ | ⟨-, rfl⟩ | ⟨-, rfl⟩ | ⟨-,
      rfl⟩ := hmem <;> rfl
  next =>
    unfold number at h
    dsimp only at h
    split at h
    next => cases h
    next =>
      split at h
      · split at h
        · cases h
        · obtain ⟨rfl, -⟩ := Prod.mk.inj (Except.ok.inj h)
          rfl
      · obtain ⟨rfl, -⟩ := Prod.mk.inj (Except.ok.inj h)
        rfl

/-- What is found in a text has distinct keys, with any number of steps. -/
theorem distinct_value (fuel : Nat) :
    (∀ depth cs v rest, value depth fuel cs = .ok (v, rest) → v.distinct = true) ∧
    (∀ depth done cs v rest, items depth done fuel cs = .ok (v, rest) → v.distinct = true) ∧
    (∀ depth done cs v rest, Value.distinctEntries done = true →
      entries depth done fuel cs = .ok (v, rest) → v.distinct = true) := by
  induction fuel with
  | zero =>
    refine ⟨?_, ?_, ?_⟩
    · intro depth cs v rest h
      rw [value] at h
      cases h
    · intro depth done cs v rest h
      rw [items] at h
      cases h
    · intro depth done cs v rest hdone h
      rw [entries] at h
      cases h
  | succ fuel ih =>
    obtain ⟨hvalue, hitems, hentries⟩ := ih
    refine ⟨?_, ?_, ?_⟩
    · intro depth cs v rest h
      cases cs with
      | nil =>
        simp only [value] at h
        cases h
      | cons c cs =>
        rw [value] at h
        split at h
        · -- a text
          obtain ⟨found, -, heq⟩ := map_eq_ok.mp h
          obtain ⟨rfl, -⟩ := Prod.mk.inj heq
          rfl
        split at h
        · -- a list
          split at h
          · cases h
          · split at h
            · obtain ⟨rfl, -⟩ := Prod.mk.inj (Except.ok.inj h)
              rfl
            · exact hitems _ _ _ _ _ h
        split at h
        · -- a mapping
          split at h
          · cases h
          · split at h
            · obtain ⟨rfl, -⟩ := Prod.mk.inj (Except.ok.inj h)
              rfl
            · exact hentries _ _ _ _ _ rfl h
        · exact distinct_leaf h
    · intro depth done cs v rest h
      rw [items] at h
      obtain ⟨⟨item, after⟩, -, h⟩ := bind_eq_ok.mp h
      dsimp only at h
      split at h
      · exact hitems _ _ _ _ _ h
      · obtain ⟨rfl, -⟩ := Prod.mk.inj (Except.ok.inj h)
        rfl
      · cases h
    · intro depth done cs v rest hdone h
      unfold entries at h
      split at h
      next cs' =>
        obtain ⟨⟨key, after⟩, -, h⟩ := bind_eq_ok.mp h
        dsimp only at h
        split at h
        next after' =>
          obtain ⟨⟨found, after''⟩, hfound, h⟩ := bind_eq_ok.mp h
          have hput := Value.distinctEntries_put hdone (hvalue _ _ _ _ hfound) (.str key)
          dsimp only at h
          split at h
          · exact hentries _ _ _ _ _ hput h
          · obtain ⟨rfl, -⟩ := Prod.mk.inj (Except.ok.inj h)
            exact hput
          · cases h
        next => cases h
      next => cases h

/-- **What is read from JSON** has distinct keys. -/
theorem distinct_read {text : String} {v : Value} (h : read text = .ok v) : v.distinct = true := by
  unfold read at h
  obtain ⟨⟨found, rest⟩, hfound, h⟩ := bind_eq_ok.mp h
  dsimp only at h
  split at h
  · obtain rfl := Except.ok.inj h
    exact (distinct_value _).1 _ _ _ _ hfound
  · cases h

end Json

namespace Yaml

/-- A float that was computed is no mapping. -/
theorem isMapping_computed (place : Nat) (x : Float) : (computed place x).isMapping = false := by
  unfold computed
  split <;> rfl

/-- A decimal is no mapping. -/
theorem isMapping_decimalValue {place : Nat} {text : String} {v : Value}
    (h : decimalValue place text = .ok v) : v.isMapping = false := by
  unfold decimalValue at h
  obtain ⟨⟨negative, cs⟩, -, h⟩ := bind_eq_ok.mp h
  dsimp only at h
  split at h
  · exact Except.ok.inj h ▸ rfl
  split at h
  · exact Except.ok.inj h ▸ rfl
  split at h
  · obtain ⟨_, -, h⟩ := bind_eq_ok.mp h
    obtain ⟨_, -, h⟩ := bind_eq_ok.mp h
    exact Except.ok.inj h ▸ isMapping_computed _ _
  · obtain ⟨_, -, h⟩ := bind_eq_ok.mp h
    exact Except.ok.inj h ▸ isMapping_computed _ _

/-- A moment is no mapping. -/
theorem isMapping_momentValue {text : String} {v : Value} (h : momentValue text = .ok v) :
    v.isMapping = false := by
  unfold momentValue at h
  split at h
  · cases h
  · dsimp only at h
    split at h
    all_goals
      obtain ⟨_, -, rfl⟩ := map_eq_ok.mp (mapError_eq_ok h)
      rfl

/-- The value of a scalar is no mapping. -/
theorem isMapping_scalarValue {nodes : Nodes} {place : Nat} {v : Value}
    (h : nodes.scalarValue place = .ok v) : v.isMapping = false := by
  unfold Nodes.scalarValue at h
  dsimp only at h
  -- One case for each tag.  A date is a value of its own, and everything else a plain scalar.
  split at h
  next =>
    obtain ⟨_, -, rfl⟩ := map_eq_ok.mp h
    rfl
  next =>
    obtain ⟨text, -, h⟩ := bind_eq_ok.mp h
    unfold booleanValue at h
    dsimp only at h
    split at h
    · exact Except.ok.inj h ▸ rfl
    · split at h
      · exact Except.ok.inj h ▸ rfl
      · cases h
  next =>
    obtain ⟨text, -, h⟩ := bind_eq_ok.mp h
    obtain ⟨i, -, rfl⟩ := map_eq_ok.mp h
    rfl
  next =>
    obtain ⟨text, -, h⟩ := bind_eq_ok.mp h
    exact isMapping_decimalValue h
  next =>
    obtain ⟨text, -, h⟩ := bind_eq_ok.mp h
    unfold bytesValue at h
    dsimp only at h
    split at h
    · split at h
      · exact Except.ok.inj h ▸ rfl
      · cases h
    · cases h
  next =>
    obtain ⟨text, -, h⟩ := bind_eq_ok.mp h
    split at h
    · cases h
    · exact isMapping_momentValue h
  next =>
    obtain ⟨_, -, rfl⟩ := map_eq_ok.mp h
    rfl
  next => cases h

namespace Assembly

variable {a a' : Assembly}

/-- The value of a scalar with its place is no mapping. -/
theorem isMapping_placeLeaf {place : Nat} {v : Value} (h : v.isMapping = false) :
    (a.placeLeaf place v).isMapping = false := by
  unfold placeLeaf
  split
  · split <;> rfl
  · split <;> rfl
  · exact h

/-- Every key is the place of a scalar, and no two of these are the same key. -/
def Keyed (a : Assembly) (entries : List Entry) : Prop :=
  (∀ entry ∈ entries, (a.leaf? entry.1).isSome) ∧
    entries.Pairwise fun entry other => a.sameKey entry.1 other.1 = false

/-- A place has a shape, or there is no node at it. -/
def Settled (a : Assembly) (place : Nat) : Prop :=
  (a.shapes.getD place none).isSome ∨ a.shapes.size ≤ place

/-- What is settled stays what it is: a scalar the same scalar, a collection a collection. -/
def Grows (a a' : Assembly) : Prop :=
  ∀ place, a.Settled place → a'.Settled place ∧ a'.leaf? place = a.leaf? place

/-- The keys of mappings are distinct, scalars are no mappings, and no scalar waits to be filled. -/
structure Distinct (a : Assembly) : Prop where
  leaf : ∀ place v, a.leaf? place = some v → v.isMapping = false
  map : ∀ place entries, a.shapes.getD place none = some (.map entries) → a.Keyed entries
  begun : ∀ place ∈ a.begun, a.Settled place ∧ a.leaf? place = none

/-- Nothing changes. -/
theorem Grows.refl (a : Assembly) : a.Grows a := fun _ h => ⟨h, rfl⟩

/-- One step follows another. -/
theorem Grows.trans {a₁ a₂ a₃ : Assembly} (h : a₁.Grows a₂) (h' : a₂.Grows a₃) :
    a₁.Grows a₃ :=
  fun place hplace =>
    ⟨(h' place (h place hplace).1).1,
      ((h' place (h place hplace).1).2).trans (h place hplace).2⟩

/-- A place with a scalar is settled. -/
theorem settled_of_leaf? {place : Nat} (h : (a.leaf? place).isSome) : a.Settled place := by
  unfold leaf? at h
  split at h
  next v hshape => exact .inl (by rw [hshape]; rfl)
  next => cases h

/-- A scalar stays where it is. -/
theorem Grows.leaf? (h : a.Grows a') {place : Nat} (hleaf : (a.leaf? place).isSome) :
    a'.leaf? place = a.leaf? place := (h place (settled_of_leaf? hleaf)).2

/-- Keys stay distinct. -/
theorem Keyed.grows {entries : List Entry} (h : a.Keyed entries) (hgrows : a.Grows a') :
    a'.Keyed entries := by
  refine ⟨fun entry hentry => ?_, ?_⟩
  · rw [hgrows.leaf? (h.1 entry hentry)]
    exact h.1 entry hentry
  · refine h.2.imp_of_mem fun hentry hother hne => ?_
    rwa [sameKey, hgrows.leaf? (h.1 _ hentry), hgrows.leaf? (h.1 _ hother)]

/-- A place that gets a shape has it. -/
theorem getD_withShape (a : Assembly) (place other : Nat) (shape : Shape) :
    (a.withShape place shape).shapes.getD other none =
      if place = other ∧ other < a.shapes.size then some shape else a.shapes.getD other none := by
  unfold withShape
  rw [Array.getD_eq_getD_getElem?, Array.getD_eq_getD_getElem?, Array.getElem?_setIfInBounds]
  split
  next heq =>
    subst heq
    split <;> simp_all
  next hne => rw [if_neg (fun h => hne h.1)]

/-- A place that gets a shape: one without a shape, or that of a collection. -/
theorem grows_withShape {place : Nat} {shape : Shape}
    (h : (a.shapes.getD place none).isSome → a.leaf? place = none ∧ ∀ v, shape ≠ .leaf v) :
    a.Grows (a.withShape place shape) := by
  intro other hother
  have hsize : (a.withShape place shape).shapes.size = a.shapes.size := by simp [withShape]
  -- At this place the new shape is there; elsewhere nothing has changed.
  by_cases hplace : place = other ∧ other < a.shapes.size
  · obtain ⟨rfl, hlt⟩ := hplace
    obtain ⟨hnone, hshape⟩ := h (hother.resolve_right (by omega))
    have hget : (a.withShape place shape).shapes.getD place none = some shape := by
      rw [getD_withShape, if_pos ⟨rfl, hlt⟩]
    refine ⟨.inl (by rw [hget]; rfl), ?_⟩
    rw [hnone, leaf?, hget]
    cases shape with
    | leaf v => exact absurd rfl (hshape v)
    | _ => rfl
  · have hget : (a.withShape place shape).shapes.getD other none = a.shapes.getD other none := by
      rw [getD_withShape, if_neg hplace]
    refine ⟨?_, by rw [leaf?, hget, leaf?]⟩
    rw [Settled, hget, hsize]
    exact hother

/-- A place gets a shape. -/
theorem Distinct.withShape (h : a.Distinct) {place : Nat} {shape : Shape}
    (hgrows : a.Grows (a.withShape place shape))
    (hleaf : ∀ v, shape = .leaf v → v.isMapping = false)
    (hmap : ∀ entries, shape = .map entries → a.Keyed entries) :
    (a.withShape place shape).Distinct := by
  -- Places other than the one that gets a shape keep what they had, so each clause has two cases.
  refine ⟨fun other v hother => ?_, fun other entries hother => ?_, fun other hother => ?_⟩
  · unfold leaf? at hother
    rw [getD_withShape] at hother
    split at hother
    next w hshape =>
      obtain rfl := Option.some.inj hother
      split at hshape
      next => exact hleaf _ (Option.some.inj hshape)
      next => exact h.leaf other w (by rw [leaf?, hshape])
    next => cases hother
  · rw [getD_withShape] at hother
    split at hother
    next => exact (hmap _ (Option.some.inj hother)).grows hgrows
    next => exact (h.map _ _ hother).grows hgrows
  · obtain ⟨hsettled, hnone⟩ := h.begun other hother
    obtain ⟨hsettled', hleaf'⟩ := hgrows other hsettled
    exact ⟨hsettled', hleaf'.trans hnone⟩

/-- The empty collections have no keys. -/
theorem eq_nil_of_emptyShape? {tag : Tag} {entries : List Entry}
    (h : tag.emptyShape? = some (.map entries)) : entries = [] := by
  cases tag <;> simp_all [Tag.emptyShape?]

/-- Collections that wait to be filled stand at places that are settled and hold no scalar. -/
theorem Distinct.withBegun (h : a.Distinct) {begun : List Nat}
    (hbegun : ∀ place ∈ begun, a.Settled place ∧ a.leaf? place = none) :
    ({ a with begun } : Assembly).Distinct := ⟨h.leaf, h.map, hbegun⟩

/-- A place that got the shape of a collection holds no scalar. -/
theorem settled_withShape {place : Nat} {shape : Shape} (hne : ∀ v, shape ≠ .leaf v) :
    (a.withShape place shape).Settled place ∧ (a.withShape place shape).leaf? place = none := by
  rw [Settled, leaf?, getD_withShape]
  by_cases hlt : place < a.shapes.size
  · rw [if_pos ⟨rfl, hlt⟩]
    cases shape with
    | leaf v => exact absurd rfl (hne v)
    | _ => exact ⟨.inl rfl, rfl⟩
  · have hget : a.shapes.getD place none = none := by
      rw [Array.getD_eq_getD_getElem?, Array.getElem?_eq_none (by omega)]
      rfl
    rw [if_neg (fun h => hlt h.2), hget]
    exact ⟨.inr (by simp [withShape]; omega), rfl⟩

/-- A node is begun. -/
theorem Distinct.begin (h : a.Distinct) {place : Nat} (hread : a.begin place = .ok a') :
    a'.Distinct ∧ a.Grows a' := by
  unfold Assembly.begin at hread
  split at hread
  next => exact Except.ok.inj hread ▸ ⟨h, .refl a⟩
  next hnone =>
    -- The place had no shape, so whatever it gets is growth.
    have hgrows : ∀ shape, a.Grows (a.withShape place shape) := fun shape =>
      grows_withShape fun hsome => absurd hsome hnone
    split at hread
    -- A list or mapping begins empty, so there are no keys yet.
    next shape hshape =>
      have hne : ∀ v, shape ≠ .leaf v := fun v hv => emptyShape?_ne_leaf (hv ▸ hshape)
      have hdistinct : (a.withShape place shape).Distinct :=
        h.withShape (hgrows shape) (fun v hv => absurd hv (hne v)) fun entries hentries => by
          obtain rfl := eq_nil_of_emptyShape? (hentries ▸ hshape)
          exact ⟨List.forall_mem_nil _, .nil⟩
      obtain rfl := Except.ok.inj hread
      refine ⟨hdistinct.withBegun (List.forall_mem_cons.mpr ⟨?_, hdistinct.begun⟩),
        hgrows shape⟩
      exact settled_withShape hne
    next =>
      obtain ⟨v, hv, rfl⟩ := map_eq_ok.mp hread
      refine ⟨h.withShape (hgrows _) (fun w hw => ?_) fun _ hw => (nomatch hw), hgrows _⟩
      exact Shape.leaf.inj hw ▸ isMapping_placeLeaf (isMapping_scalarValue hv)

/-- An entry is begun, and its key is a scalar. -/
theorem Distinct.beginEntry (h : a.Distinct) {entry : Entry} (hread : a.beginEntry entry = .ok a') :
    (a'.Distinct ∧ a.Grows a') ∧ (a'.leaf? entry.1).isSome := by
  unfold Assembly.beginEntry at hread
  obtain ⟨a₁, hkey, hread⟩ := bind_eq_ok.mp hread
  dsimp only at hread
  split at hread
  next => cases hread
  next hsome =>
    obtain ⟨h₁, hgrows₁⟩ := h.begin hkey
    obtain ⟨h₂, hgrows₂⟩ := h₁.begin hread
    have hleaf : (a₁.leaf? entry.1).isSome := by simpa [Option.isSome_iff_ne_none] using hsome
    exact ⟨⟨h₂, hgrows₁.trans hgrows₂⟩, by rwa [hgrows₂.leaf? hleaf]⟩

/-- A pair is begun. -/
theorem Distinct.beginPair (h : a.Distinct) {place : Nat} (hread : a.beginPair place = .ok a') :
    a'.Distinct ∧ a.Grows a' := by
  unfold Assembly.beginPair at hread
  split at hread
  · obtain ⟨a₁, hkey, hread⟩ := bind_eq_ok.mp hread
    obtain ⟨h₁, hgrows₁⟩ := h.begin hkey
    obtain ⟨h₂, hgrows₂⟩ := h₁.begin hread
    exact ⟨h₂, hgrows₁.trans hgrows₂⟩
  · cases hread

/-- Steps that keep what is settled do so one after another. -/
theorem Distinct.steps {α : Type} {f : Assembly → α → Except Fault Assembly}
    (hf : ∀ {a x a'}, Distinct a → f a x = .ok a' → a'.Distinct ∧ a.Grows a') {xs : List α}
    (h : a.Distinct) (hread : xs.foldlM f a = .ok a') : a'.Distinct ∧ a.Grows a' := by
  induction xs generalizing a with
  | nil => exact Except.ok.inj hread ▸ ⟨h, .refl a⟩
  | cons x xs ih =>
    rw [List.foldlM_cons] at hread
    obtain ⟨a₁, hstep, hread⟩ := bind_eq_ok.mp hread
    obtain ⟨h₁, hgrows₁⟩ := hf h hstep
    obtain ⟨h₂, hgrows₂⟩ := ih h₁ hread
    exact ⟨h₂, hgrows₁.trans hgrows₂⟩

/-- The entries of a mapping are begun, and their keys are scalars. -/
theorem Distinct.beginEntries (h : a.Distinct) {entries : List Entry}
    (hread : entries.foldlM Assembly.beginEntry a = .ok a') :
    (a'.Distinct ∧ a.Grows a') ∧ ∀ entry ∈ entries, (a'.leaf? entry.1).isSome := by
  induction entries generalizing a with
  | nil => exact Except.ok.inj hread ▸ ⟨⟨h, .refl a⟩, List.forall_mem_nil _⟩
  | cons entry rest ih =>
    rw [List.foldlM_cons] at hread
    obtain ⟨a₁, hstep, hread⟩ := bind_eq_ok.mp hread
    obtain ⟨⟨h₁, hgrows₁⟩, hleaf⟩ := h.beginEntry hstep
    obtain ⟨⟨h₂, hgrows₂⟩, hrest⟩ := ih h₁ hread
    exact ⟨⟨h₂, hgrows₁.trans hgrows₂⟩,
      List.forall_mem_cons.mpr ⟨by rwa [hgrows₂.leaf? hleaf], hrest⟩⟩

/-- Writing an entry adds no key but its own. -/
theorem mem_putEntry {entry found : Entry} {entries : List Entry}
    (h : found ∈ a.putEntry entry entries) :
    found.1 = entry.1 ∨ ∃ other ∈ entries, found.1 = other.1 := by
  -- By induction on the entries; the entry takes the place of one with the same key, or goes to the
  -- end.
  induction entries with
  | nil =>
    rw [putEntry, List.mem_singleton] at h
    exact .inl (h ▸ rfl)
  | cons first rest ih =>
    obtain ⟨key, value⟩ := first
    rw [putEntry] at h
    split at h
    · rcases List.mem_cons.mp h with rfl | h
      · exact .inr ⟨_, List.mem_cons_self, rfl⟩
      · exact .inr ⟨found, List.mem_cons_of_mem _ h, rfl⟩
    · rcases List.mem_cons.mp h with rfl | h
      · exact .inr ⟨_, List.mem_cons_self, rfl⟩
      · rcases ih h with heq | ⟨other, hother, heq⟩
        · exact .inl heq
        · exact .inr ⟨other, List.mem_cons_of_mem _ hother, heq⟩

/-- Writing an entry keeps keys distinct. -/
theorem Keyed.putEntry {entries : List Entry} (h : a.Keyed entries) {entry : Entry}
    (hleaf : (a.leaf? entry.1).isSome) : a.Keyed (a.putEntry entry entries) := by
  -- The first goal is that keys are settled; the second, by induction on the entries, is that no
  -- two of them are the same.
  refine ⟨fun found hfound => ?_, ?_⟩
  · rcases mem_putEntry hfound with heq | ⟨other, hother, heq⟩
    · rwa [heq]
    · rw [heq]
      exact h.1 other hother
  · have hpairs := h.2
    clear h
    induction entries with
    | nil => exact List.pairwise_singleton _ _
    | cons first rest ih =>
      obtain ⟨key, value⟩ := first
      obtain ⟨hfirst, hrest⟩ := List.pairwise_cons.mp hpairs
      rw [Assembly.putEntry]
      split
      next => exact List.pairwise_cons.mpr ⟨hfirst, hrest⟩
      next hother =>
        refine List.pairwise_cons.mpr ⟨fun found hfound => ?_, ih hrest⟩
        rcases mem_putEntry hfound with heq | ⟨other, hmem, heq⟩
        · rw [heq]
          simpa using hother
        · rw [heq]
          exact hfirst other hmem

/-- The entries of a mapping have distinct keys. -/
theorem Distinct.mappingEntries (h : a.Distinct) {place : Nat} {entries : List Entry}
    (hread : a.mappingEntries place = .ok (entries, a')) :
    (a'.Distinct ∧ a.Grows a') ∧ a'.Keyed entries := by
  unfold Assembly.mappingEntries at hread
  obtain ⟨nodes, -, hread⟩ := bind_eq_ok.mp hread
  obtain ⟨a₁, hentries, hread⟩ := bind_eq_ok.mp hread
  obtain ⟨rfl, rfl⟩ := Prod.mk.inj (Except.ok.inj hread)
  have hnodes : ({ a with nodes } : Assembly).Distinct := ⟨h.leaf, h.map, h.begun⟩
  obtain ⟨hsteps, hleaf⟩ := hnodes.beginEntries hentries
  refine ⟨hsteps, ?_⟩
  have hfold : ∀ (own done : List Entry), a₁.Keyed done →
      (∀ entry ∈ own, (a₁.leaf? entry.1).isSome) →
      a₁.Keyed (own.foldl (fun done entry => a₁.putEntry entry done) done) := by
    intro own
    -- By induction on the entries that are to be written.
    induction own with
    | nil => exact fun done hdone _ => hdone
    | cons entry own ih =>
      intro done hdone hown
      obtain ⟨hentry, hown⟩ := List.forall_mem_cons.mp hown
      exact ih _ (hdone.putEntry hentry) hown
  exact hfold _ [] ⟨List.forall_mem_nil _, .nil⟩ hleaf

/-- A collection is filled. -/
theorem Distinct.fill (h : a.Distinct) {place : Nat}
    (hplace : a.Settled place ∧ a.leaf? place = none) (hread : a.fill place = .ok a') :
    a'.Distinct ∧ a.Grows a' := by
  -- In all three kinds of collections one shape is filled; what differs is whether it has keys.
  have hfilled : ∀ {a₁ : Assembly} {shape : Shape}, a₁.Distinct ∧ a.Grows a₁ →
      (∀ v, shape ≠ .leaf v) → (∀ entries, shape = .map entries → a₁.Keyed entries) →
      (a₁.withShape place shape).Distinct ∧ a.Grows (a₁.withShape place shape) := by
    intro a₁ shape h₁ hne hmap
    have hgrows : a₁.Grows (a₁.withShape place shape) := grows_withShape fun _ =>
      ⟨((h₁.2 place hplace.1).2).trans hplace.2, hne⟩
    exact ⟨h₁.1.withShape hgrows (fun v hv => absurd hv (hne v)) hmap, h₁.2.trans hgrows⟩
  unfold Assembly.fill at hread
  split at hread
  next =>
    obtain ⟨a₁, hitems, hread⟩ := bind_eq_ok.mp hread
    obtain rfl := Except.ok.inj hread
    exact hfilled (h.steps (fun h hstep => h.begin hstep) hitems) (fun _ hv => nomatch hv)
      fun _ hv => nomatch hv
  iterate 2
    next =>
      obtain ⟨a₁, hitems, hread⟩ := bind_eq_ok.mp hread
      obtain rfl := Except.ok.inj hread
      exact hfilled (h.steps (fun h hstep => h.beginPair hstep) hitems) (fun _ hv => nomatch hv)
        fun _ hv => nomatch hv
  next =>
    obtain ⟨⟨entries, a₁⟩, hentries, hread⟩ := bind_eq_ok.mp hread
    obtain rfl := Except.ok.inj hread
    obtain ⟨hsteps, hkeyed⟩ := h.mappingEntries hentries
    exact hfilled hsteps (fun _ hv => nomatch hv) fun _ hv => Shape.map.inj hv ▸ hkeyed
  next =>
    obtain ⟨⟨entries, a₁⟩, hentries, hread⟩ := bind_eq_ok.mp hread
    obtain rfl := Except.ok.inj hread
    exact hfilled (h.mappingEntries hentries).1 (fun _ hv => nomatch hv) fun _ hv => nomatch hv
  next => cases hread

/-- Collections are filled one after another. -/
theorem Distinct.fillAll (h : a.Distinct) {places : List Nat}
    (hplaces : ∀ place ∈ places, a.Settled place ∧ a.leaf? place = none)
    (hread : places.foldlM Assembly.fill a = .ok a') : a'.Distinct := by
  induction places generalizing a with
  | nil => exact Except.ok.inj hread ▸ h
  | cons place rest ih =>
    rw [List.foldlM_cons] at hread
    obtain ⟨a₁, hstep, hread⟩ := bind_eq_ok.mp hread
    obtain ⟨hplace, hrest⟩ := List.forall_mem_cons.mp hplaces
    obtain ⟨h₁, hgrows⟩ := h.fill hplace hstep
    refine ih h₁ (fun other hother => ?_) hread
    obtain ⟨hsettled, hnone⟩ := hrest other hother
    obtain ⟨hsettled', hleaf⟩ := hgrows other hsettled
    exact ⟨hsettled', hleaf.trans hnone⟩

/-- Collections are filled, in rounds. -/
theorem Distinct.finish (h : a.Distinct) {rounds : Nat} (hread : finish rounds a = .ok a') :
    a'.Distinct := by
  induction rounds generalizing a with
  | zero => exact Except.ok.inj hread ▸ h
  | succ rounds ih =>
    rw [Assembly.finish] at hread
    split at hread
    · exact Except.ok.inj hread ▸ h
    · obtain ⟨a₁, hfill, hread⟩ := bind_eq_ok.mp hread
      refine ih (Distinct.fillAll (h.withBegun (List.forall_mem_nil _)) ?_ hfill) hread
      exact fun place hplace => h.begun place (List.mem_reverse.mp hplace)

/-- **The shapes of a document** have distinct keys. -/
theorem distinct_ofDocument {d : Document} (hread : ofDocument d = .ok a) : a.Distinct := by
  unfold ofDocument at hread
  obtain ⟨a₁, hbegin, hread⟩ := bind_eq_ok.mp hread
  -- Before anything is begun no place has a shape, so there is nothing to distinguish.
  have hnone : ∀ place, (Array.replicate d.nodes.size (none : Option Shape)).getD place none =
      none := by
    intro place
    rw [Array.getD_eq_getD_getElem?, Array.getElem?_replicate]
    split <;> rfl
  refine Distinct.finish (Distinct.begin ⟨?_, ?_, ?_⟩ hbegin).1 hread
  · intro place v hv
    unfold leaf? at hv
    rw [hnone] at hv
    cases hv
  · intro place entries hentries
    rw [hnone] at hentries
    cases hentries
  · exact List.forall_mem_nil _

end Assembly

section Unrolled

variable {d : Document} {a : Assembly} {values : Array Value}

/-- The values of the shapes so far: those of scalars are there, and all have distinct keys. -/
structure Follows (a : Assembly) (values : Array Value) : Prop where
  leaf : ∀ place v, a.leaf? place = some v → values.getD place .endless = v
  distinct : ∀ v ∈ values, v.distinct = true

/-- Every value so far has distinct keys. -/
theorem Follows.getD (h : Follows a values) (place : Nat) :
    (values.getD place .endless).distinct = true := by
  rw [Array.getD_eq_getD_getElem?]
  cases hget : values[place]? with
  | none => rfl
  | some v => exact h.distinct v (Array.mem_of_getElem? hget)

/-- The value of a shape has distinct keys. -/
theorem Follows.placedValue (h : Follows a values) (ha : a.Distinct) {place : Nat} {shape : Shape}
    (hshape : a.shapes.getD place none = some shape) :
    (placedValue a.isShared values place shape).distinct = true := by
  have hplaced : ∀ v : Value, v.distinct = true →
      (if a.isShared = true then Value.placed place v else v).distinct = true := by
    intro v hv
    split
    · rwa [Value.distinct]
    · exact hv
  -- Only mappings have keys, and these come from different entries of the collection.
  cases shape with
  | leaf v =>
    exact Value.distinct_of_not (ha.leaf place v (by rw [Assembly.leaf?, hshape]))
  | map entries =>
    refine hplaced _ ?_
    obtain ⟨hleaf, hpairs⟩ := ha.map place entries hshape
    rw [Shape.value, Value.distinct, Value.distinctEntries_iff]
    constructor
    · rw [List.map_map, Value.KeysDiffer, List.pairwise_map]
      refine hpairs.imp_of_mem fun {entry other} hentry hother hne => ?_
      obtain ⟨v, hv⟩ := Option.isSome_iff_exists.mp (hleaf entry hentry)
      obtain ⟨w, hw⟩ := Option.isSome_iff_exists.mp (hleaf other hother)
      show (values.getD entry.1 .endless).sameKey (values.getD other.1 .endless) = false
      rw [h.leaf _ _ hv, h.leaf _ _ hw]
      rwa [Assembly.sameKey, hv, hw] at hne
    · intro entry hentry
      obtain ⟨found, -, rfl⟩ := List.mem_map.mp hentry
      exact h.getD found.2
  | _ => exact hplaced _ (by rw [Shape.value, Value.distinct] <;> simp)

/-- Values are unrolled once more. -/
theorem Follows.unrollOnce (h : Follows a values) (ha : a.Distinct) :
    Follows a (unrollOnce a values) := by
  unfold Yaml.unrollOnce
  generalize (List.range a.shapes.size).reverse = places
  induction places generalizing values with
  | nil => exact h
  | cons place rest ih =>
    refine ih ?_
    dsimp only
    split
    next shape hshape =>
      refine ⟨fun other v hv => ?_, fun v hv => ?_⟩
      · rw [Array.getD_eq_getD_getElem?, Array.getElem?_setIfInBounds]
        have hold := h.leaf other v hv
        rw [Array.getD_eq_getD_getElem?] at hold
        split
        next heq =>
          subst heq
          -- a scalar is written again where it was
          unfold Assembly.leaf? at hv
          rw [hshape] at hv
          cases shape with
          | leaf w =>
            obtain rfl := Option.some.inj hv
            split
            · rfl
            · rename_i hlt
              rw [Array.getElem?_eq_none (by omega)] at hold
              exact hold
          | _ => cases hv
        next => exact hold
      · rcases Array.mem_or_eq_of_mem_setIfInBounds hv with hv | rfl
        · exact h.distinct v hv
        · exact h.placedValue ha hshape
    next => exact h

/-- The values of scalars, before anything is unrolled. -/
theorem follows_leaves (ha : a.Distinct) {start : Option Shape → Value}
    (hleaf : ∀ v, start (some (.leaf v)) = v)
    (hother : ∀ shape, (∀ v, shape ≠ some (.leaf v)) → start shape = .endless) :
    Follows a (a.shapes.map start) := by
  refine ⟨fun place v hv => ?_, fun v hv => ?_⟩
  · unfold Assembly.leaf? at hv
    rw [Array.getD_eq_getD_getElem?, Array.getElem?_map]
    rw [Array.getD_eq_getD_getElem?] at hv
    -- Only a shape that is a scalar has a value by now; all others start as endless.
    cases hshape : a.shapes[place]? with
    | none =>
      rw [hshape] at hv
      cases hv
    | some shape =>
      rw [hshape, Option.getD_some] at hv
      rw [Option.map_some, Option.getD_some]
      split at hv
      · rw [hleaf]
        exact Option.some.inj hv
      · cases hv
  · obtain ⟨shape, hshape, rfl⟩ := Array.mem_map.mp hv
    by_cases hscalar : ∃ w, shape = some (.leaf w)
    · obtain ⟨w, rfl⟩ := hscalar
      obtain ⟨place, hlt, hget⟩ := Array.mem_iff_getElem.mp hshape
      rw [hleaf]
      refine Value.distinct_of_not (ha.leaf place w ?_)
      rw [Assembly.leaf?, Array.getD_eq_getD_getElem?, Array.getElem?_eq_getElem hlt, hget]
      rfl
    · rw [hother shape fun w heq => hscalar ⟨w, heq⟩]
      rfl

/-- So they do after so many rounds. -/
theorem Follows.rounds (ha : a.Distinct) {values : Array Value} (h : Follows a values)
    (rounds : List Nat) :
    Follows a (rounds.foldl (fun values _ => Yaml.unrollOnce a values) values) := by
  induction rounds generalizing values with
  | nil => exact h
  | cons round rest ih => exact ih (h.unrollOnce ha)

/-- **The values of the nodes** of a document have distinct keys. -/
theorem follows_unrolled (ha : a.Distinct) (d : Document) : Follows a (unrolled d a) := by
  refine Follows.rounds ha (follows_leaves ha (fun v => ?_) fun shape hshape => ?_) _
  · rfl
  · split
    next v => exact absurd rfl (hshape v)
    next => rfl

end Unrolled

/-- **What is read from YAML** has distinct keys. -/
theorem distinct_read {text : String} {v : Value} (h : read text = .ok v) : v.distinct = true := by
  unfold read at h
  obtain ⟨found?, -, h⟩ := bind_eq_ok.mp h
  cases found? with
  | none => exact Except.ok.inj h ▸ rfl
  | some d =>
    obtain ⟨a, ha, h⟩ := bind_eq_ok.mp h
    obtain rfl := Except.ok.inj h
    rw [Array.getD_eq_getD_getElem?]
    cases hget : (unrolled d a)[0]? with
    | none => rfl
    | some v =>
      exact (follows_unrolled (Assembly.distinct_ofDocument ha) d).distinct v
        (Array.mem_of_getElem? hget)

end Yaml

/-- **What is read from a text**, in either format, has distinct keys. -/
theorem Format.distinct_read {format : Format} {text : String} {v : Value}
    (h : format.read text = .ok v) : v.distinct = true := by
  cases format with
  | yaml => exact Yaml.distinct_read (mapError_eq_ok h)
  | json => exact Json.distinct_read (mapError_eq_ok h)

end PipelineCompiler
