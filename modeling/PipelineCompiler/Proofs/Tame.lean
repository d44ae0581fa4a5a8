import Mathlib.Data.List.TakeWhile
import PipelineCompiler.Json.Reader
import PipelineCompiler.Proofs.Component.Fields
import PipelineCompiler.Proofs.Number.Digits
import PipelineCompiler.Proofs.Success

namespace PipelineCompiler

/-!
# Values that messages can show

A message may show a value and list the keys of a mapping.  Not every value can be shown: a whole
number may have too many digits.  Nor can all keys be listed, since some of them have no order.

* `Value.areListed`, `areListed_texts` — keys that can be listed; texts can;
* `Value.isTame` — a value that can be shown, with whatever is in it, and whose keys can be
  listed;
* `isShown_of_isTame`, `isTame_of_field?`, `isTame_of_under?` — what is in such a value;
* `isTame_of_read` — whatever is read from JSON is such a value.
-/

namespace Value

/-! ### Keys in order -/

/-- Whether keys can be listed: they have an order, and all of them are shown. -/
def areListed (keys : List Value) : Bool := (arranged? keys).any fun sorted => sorted.all isShown

/-- A value is a text. -/
def IsText (v : Value) : Prop := ∃ s, v = .str s

/-- Texts can be compared. -/
theorem exists_less {v w : Value} (hv : v.IsText) (hw : w.IsText) : ∃ b, less? v w = some b := by
  obtain ⟨s, rfl⟩ := hv
  obtain ⟨t, rfl⟩ := hw
  exact ⟨_, rfl⟩

/-- A run of texts has a length. -/
theorem exists_runLength (descending : Bool) {previous : Value} (hprevious : previous.IsText)
    {keys : List Value} (h : ∀ key ∈ keys, key.IsText) :
    ∃ n, runLength? descending previous keys = some n := by
  induction keys generalizing previous with
  | nil => exact ⟨0, rfl⟩
  | cons key rest ih =>
    have hkey := h key List.mem_cons_self
    obtain ⟨b, hb⟩ := exists_less hkey hprevious
    obtain ⟨n, hn⟩ := ih hkey fun other hother => h other (List.mem_cons_of_mem _ hother)
    rw [runLength?, hb]
    by_cases hsame : b = descending
    · exact ⟨n + 1, by simp [hsame, hn]⟩
    · exact ⟨0, by simp [hsame]⟩

/-- Texts have a first run, and it and the others are taken from them. -/
theorem exists_firstRun {keys : List Value} (h : ∀ key ∈ keys, key.IsText) :
    ∃ run others, firstRun? keys = some (run, others) ∧
      ∀ key ∈ run ++ others, key ∈ keys := by
  match keys with
  | [] => exact ⟨[], [], rfl, fun _ hkey => hkey⟩
  | [v] => exact ⟨[v], [], rfl, fun _ hkey => hkey⟩
  | v :: w :: rest =>
    have hw := h w (List.mem_cons_of_mem _ List.mem_cons_self)
    obtain ⟨b, hb⟩ := exists_less hw (h v List.mem_cons_self)
    have hrest : ∀ key ∈ rest, key.IsText := fun key hkey =>
      h key (List.mem_cons_of_mem _ (List.mem_cons_of_mem _ hkey))
    obtain ⟨n, hn⟩ := exists_runLength b hw hrest
    refine ⟨_, _, by simp only [firstRun?, hb, hn, Option.bind_eq_bind, Option.bind_some]; rfl,
      fun key hkey => ?_⟩
    -- The run is the beginning of the list, maybe turned around, and the others are the rest.
    rcases List.mem_append.mp hkey with hkey | hkey
    · refine List.mem_of_mem_take ((?_ : key ∈ List.take (n + 2) (v :: w :: rest)))
      split at hkey
      · exact List.mem_reverse.mp hkey
      · exact hkey
    · exact List.mem_of_mem_drop hkey

/-- A text has a place among texts. -/
theorem exists_placeBetween {sorted : Array Value} (h : ∀ key ∈ sorted, key.IsText) {v : Value}
    (hv : v.IsText) (fuel low : Nat) {high : Nat} (hhigh : high ≤ sorted.size) :
    ∃ place, placeBetween? sorted v fuel low high = some place := by
  -- By induction on the fuel, which is the width of the range that is halved.
  induction fuel generalizing low high with
  | zero => exact ⟨low, rfl⟩
  | succ fuel ih =>
    rw [placeBetween?]
    split
    next hlow =>
      have hmiddle : (low + high) / 2 < sorted.size := by omega
      have htext : (sorted.getD ((low + high) / 2) .null).IsText := by
        rw [Array.getD_eq_getD_getElem?, Array.getElem?_eq_getElem hmiddle]
        exact h _ (Array.getElem_mem hmiddle)
      obtain ⟨b, hb⟩ := exists_less hv htext
      simp only [hb, Option.bind_eq_bind, Option.bind_some]
      split
      · exact ih _ (by omega)
      · exact ih _ hhigh
    next => exact ⟨low, rfl⟩

/-- What is in an array after something is put in. -/
theorem mem_of_mem_insertIdxIfInBounds {sorted : Array Value} {place : Nat} {v key : Value}
    (h : key ∈ sorted.insertIdxIfInBounds place v) : key = v ∨ key ∈ sorted := by
  unfold Array.insertIdxIfInBounds at h
  split at h
  · exact Array.mem_insertIdx.mp h
  · exact .inr h

/-- **Texts can be arranged**, and nothing is added to them. -/
theorem exists_arranged {keys : List Value} (h : ∀ key ∈ keys, key.IsText) :
    ∃ sorted, arranged? keys = some sorted ∧ ∀ key ∈ sorted, key.IsText := by
  obtain ⟨run, others, hrun, hmem⟩ := exists_firstRun h
  have hall : ∀ key ∈ run ++ others, key.IsText := fun key hkey => h key (hmem key hkey)
  have hfold : ∀ others : List Value, (∀ key ∈ others, key.IsText) →
    ∀ sorted : Array Value,
      (∀ key ∈ sorted, key.IsText) → ∃ result,
        others.foldlM putBetween? sorted = some result ∧
        ∀ key ∈ result, key.IsText := by
    intro others
    -- By induction on the keys that are not placed yet; each of them finds its place, since texts
    -- can be compared.
    induction others with
    | nil => exact fun _ sorted hsorted => ⟨sorted, rfl, hsorted⟩
    | cons v rest ih =>
      intro hothers sorted hsorted
      have hv := hothers v List.mem_cons_self
      obtain ⟨place, hplace⟩ := exists_placeBetween hsorted hv (sorted.size + 1) 0
        (Nat.le_refl _)
      rw [List.foldlM_cons, putBetween?, hplace]
      refine ih (fun key hkey => hothers key (List.mem_cons_of_mem _ hkey)) _ fun key hkey => ?_
      rcases mem_of_mem_insertIdxIfInBounds hkey with rfl | hkey
      · exact hv
      · exact hsorted key hkey
  obtain ⟨result, hresult, htexts⟩ := hfold others
    (fun key hkey => hall key (List.mem_append_right _ hkey)) run.toArray
    fun key hkey => hall key (List.mem_append_left _ (List.mem_toArray.mp hkey))
  refine ⟨result.toList, ?_, fun key hkey => htexts key (Array.mem_toList_iff.mp hkey)⟩
  rw [arranged?, hrun]
  simp only [Option.bind_eq_bind, Option.bind_some, hresult]
  rfl

/-- Texts can be listed. -/
theorem areListed_texts {keys : List Value} (h : ∀ key ∈ keys, key.IsText) :
    areListed keys = true := by
  obtain ⟨sorted, hsorted, htexts⟩ := exists_arranged h
  rw [areListed, hsorted]
  refine List.all_eq_true.mpr fun key hkey => ?_
  obtain ⟨s, rfl⟩ := htexts key hkey
  rfl

/-! ### Tame values -/

mutual

/-- Whether a value can be shown, however it is placed, and the keys of its mappings can be
    listed. -/
def isTame : Value → Bool
  | .int i => !Number.isTooLong i
  | .list items | .tuple items | .set items => areTame items
  | .map entries => areListed (entries.map (·.1)) && areTameEntries entries
  | .placed _ v => isTame v
  | .endless => false
  | _ => true

/-- Whether items are tame. -/
def areTame : List Value → Bool
  | [] => true
  | item :: rest => isTame item && areTame rest

/-- Whether the keys and values of entries are tame. -/
def areTameEntries : List (Value × Value) → Bool
  | [] => true
  | (key, value) :: rest => isTame key && isTame value && areTameEntries rest

end

/-- Items are tame when each of them is. -/
theorem areTame_iff {items : List Value} : areTame items = true ↔ ∀ v ∈ items, v.isTame := by
  induction items with
  | nil => simp [areTame]
  | cons item rest ih => simp [areTame, ih]

/-- Entries are tame when each key and each value is. -/
theorem areTameEntries_iff {entries : Entries} : areTameEntries entries = true ↔
    ∀ entry ∈ entries, entry.1.isTame ∧ entry.2.isTame := by
  induction entries with
  | nil => simp [areTameEntries]
  | cons entry rest ih => simp [areTameEntries, ih]

mutual

/-- A tame value is shown, whatever is around it. -/
theorem isShownWithin_of_isTame (around : List Nat) :
    ∀ v : Value, v.isTame → v.isShownWithin around = true
  | .int i => fun h => by
    rw [isShownWithin]
    rwa [isTame] at h
  | .list items | .tuple items | .set items => fun h => areShown_of_areTame around items h
  | .map entries => fun h =>
    areShownEntries_of_areTameEntries around entries (Bool.and_eq_true_iff.mp h).2
  | .placed place v => fun h => by
    rw [isShownWithin, isShownWithin_of_isTame (place :: around) v h, Bool.or_true]
  | .endless => fun h => nomatch h
  | .null | .bool _ | .float _ | .str _ | .bytes _ | .date _ | .timestamp _ => fun _ => rfl

/-- Tame items are shown. -/
theorem areShown_of_areTame (around : List Nat) :
    ∀ items : List Value, areTame items = true → areShown around items = true
  | [], _ => rfl
  | item :: rest, h => by
    obtain ⟨hitem, hrest⟩ := Bool.and_eq_true_iff.mp h
    rw [areShown, isShownWithin_of_isTame around item hitem, areShown_of_areTame around rest hrest]
    rfl

/-- Tame entries are shown. -/
theorem areShownEntries_of_areTameEntries (around : List Nat) :
    ∀ entries : List (Value × Value), areTameEntries entries = true →
      areShownEntries around entries = true
  | [], _ => rfl
  | (key, value) :: rest, h => by
    obtain ⟨hentry, hrest⟩ := Bool.and_eq_true_iff.mp h
    obtain ⟨hkey, hvalue⟩ := Bool.and_eq_true_iff.mp hentry
    rw [areShownEntries, isShownWithin_of_isTame around key hkey,
      isShownWithin_of_isTame around value hvalue,
      areShownEntries_of_areTameEntries around rest hrest]
    rfl

end

/-- A tame value is shown. -/
theorem isShown_of_isTame {v : Value} (h : v.isTame) : v.isShown = true :=
  isShownWithin_of_isTame [] v h

/-- A tame value is tame without its place. -/
theorem isTame_bare {v : Value} (h : v.isTame) : v.bare.isTame := by
  induction v using Value.bare.induct with
  | case1 place v ih => exact ih h
  | case2 v hbare =>
    cases v with
    | placed place inner => exact absurd rfl (hbare place inner)
    | _ => exact h

/-- The keys of a tame mapping can be listed. -/
theorem areListed_of_isTame {v : Value} {fields : Entries} (h : v.isTame)
    (hbare : v.bare = .map fields) : areListed (fields.map (·.1)) = true := by
  have hmap := isTame_bare h
  rw [hbare] at hmap
  exact (Bool.and_eq_true_iff.mp hmap).1

/-- The keys and values of a tame mapping are tame. -/
theorem isTame_entries {v : Value} {fields : Entries} (h : v.isTame)
    (hbare : v.bare = .map fields) : ∀ entry ∈ fields, entry.1.isTame ∧ entry.2.isTame := by
  have hmap := isTame_bare h
  rw [hbare] at hmap
  exact areTameEntries_iff.mp (Bool.and_eq_true_iff.mp hmap).2

/-- The items of a tame list are tame. -/
theorem isTame_items {v : Value} {items : List Value} (h : v.isTame)
    (hbare : v.bare = .list items) : ∀ item ∈ items, item.isTame := by
  have hlist := isTame_bare h
  rw [hbare] at hlist
  exact areTame_iff.mp hlist

/-- The fields of tame entries are tame. -/
theorem isTame_of_field? {fields : Entries} {name : String} {v : Value}
    (h : ∀ entry ∈ fields, entry.1.isTame ∧ entry.2.isTame)
    (hfield : field? fields name = some v) :
    v.isTame := (h _ (mem_of_field? hfield)).2

/-- What stands under fields of a tame value is tame. -/
theorem isTame_of_under? {v w : Value} {names : List String} (h : v.isTame)
    (hunder : v.under? names = some w) : w.isTame := by
  induction names generalizing v with
  | nil => exact Option.some.inj hunder ▸ h
  | cons name rest ih =>
    rw [under?] at hunder
    split at hunder
    next fields hbare =>
      obtain ⟨found, hfound, hrest⟩ := Option.bind_eq_some_iff.mp hunder
      exact ih (isTame_of_field? (isTame_entries h hbare) hfound) hrest
    next => cases hunder

/-! ### Values that are read from JSON -/

/-- The entries of a mapping in JSON: the keys are texts, the values tame. -/
def IsTextual (entries : Entries) : Prop := ∀ entry ∈ entries, entry.1.IsText ∧ entry.2.isTame

/-- Such a mapping is tame. -/
theorem IsTextual.isTame {entries : Entries} (h : IsTextual entries) :
    (Value.map entries).isTame := by
  refine Bool.and_eq_true_iff.mpr ⟨areListed_texts fun key hkey => ?_,
    areTameEntries_iff.mpr fun entry hentry => ⟨?_, (h entry hentry).2⟩⟩
  · obtain ⟨entry, hentry, rfl⟩ := List.mem_map.mp hkey
    exact (h entry hentry).1
  · obtain ⟨s, hs⟩ := (h entry hentry).1
    rw [hs]
    rfl

/-- Writing a text key leaves the others alone. -/
theorem IsTextual.put {entries : Entries} (h : IsTextual entries) {key value : Value}
    (hkey : key.IsText) (hvalue : value.isTame) : IsTextual (put entries key value) := by
  induction entries with
  | nil => exact List.forall_mem_singleton.mpr ⟨hkey, hvalue⟩
  | cons entry rest ih =>
    obtain ⟨hentry, hrest⟩ := List.forall_mem_cons.mp h
    rw [Value.put]
    split
    · exact List.forall_mem_cons.mpr ⟨⟨hentry.1, hvalue⟩, hrest⟩
    · exact List.forall_mem_cons.mpr ⟨hentry, ih hrest⟩

end Value

namespace Json

/-- The digits before a point are digits. -/
theorem isDigit_of_wholeDigits {cs whole rest : List Char}
    (h : wholeDigits? cs = some (whole, rest)) : ∀ c ∈ whole, c.isDigit = true := by
  unfold wholeDigits? at h
  split at h
  · obtain ⟨rfl, -⟩ := Prod.mk.inj (Option.some.inj h)
    exact fun c hmem => by rw [List.mem_singleton.mp hmem]; rfl
  · split at h
    next hc =>
      obtain ⟨rfl, -⟩ := Prod.mk.inj (Option.some.inj h)
      exact List.forall_mem_cons.mpr ⟨hc, fun c hmem => List.mem_takeWhile_imp hmem⟩
    next => cases h
  · cases h

/-- A number is tame. -/
theorem isTame_number {cs rest : List Char} {v : Value} (h : number cs = .ok (v, rest)) :
    v.isTame := by
  unfold number at h
  split at h
  next negative body _ =>
    split at h
    next => cases h
    next whole afterWhole hwhole =>
      generalize fractionDigits afterWhole = found at h
      obtain ⟨fraction, afterFraction⟩ := found
      generalize exponentPart afterFraction = found at h
      obtain ⟨power, afterPower⟩ := found
      dsimp only at h
      -- A number is whole, unless it has a fraction or an exponent; and only a whole number can
      -- have too many digits.
      split at h
      next hplain =>
        split at h
        next => cases h
        next hlength =>
          obtain ⟨rfl, -⟩ := Prod.mk.inj (Except.ok.inj h)
          obtain rfl := List.isEmpty_iff.mp (Bool.and_eq_true_iff.mp hplain).1
          rw [List.append_nil, Value.isTame, Number.isTooLong_ofDigits
            (isDigit_of_wholeDigits hwhole) (Nat.le_of_not_lt hlength)]
          rfl
      next =>
        obtain ⟨rfl, -⟩ := Prod.mk.inj (Except.ok.inj h)
        rfl

/-- A word or number is tame. -/
theorem isTame_leaf {cs rest : List Char} {v : Value} (h : leaf cs = .ok (v, rest)) :
    v.isTame := by
  unfold leaf at h
  split at h
  next word value hfound =>
    obtain ⟨rfl, -⟩ := Prod.mk.inj (Except.ok.inj h)
    have hwords : ∀ entry ∈ words, entry.2.isTame := by decide
    exact hwords _ (List.mem_of_find?_eq_some hfound)
  next => exact isTame_number h

/-- Values, the items of lists and the entries of mappings are tame, behind those that are. -/
theorem isTame_value (fuel : Nat) :
    (∀ depth cs v rest, value depth fuel cs = .ok (v, rest) → v.isTame) ∧
    (∀ depth done cs v rest, items depth done fuel cs = .ok (v, rest) →
      (∀ item ∈ done, item.isTame) → v.isTame) ∧
    ∀ depth done cs v rest, entries depth done fuel cs = .ok (v, rest) →
      Value.IsTextual done → v.isTame := by
  -- By induction on the fuel, for values, items and entries at once, as the three readers call each
  -- other.
  induction fuel with
  | zero =>
    refine ⟨fun _ _ _ _ h => ?_, fun _ _ _ _ _ h => ?_, fun _ _ _ _ _ h => ?_⟩
    · rw [value] at h
      cases h
    · cases h
    · cases h
  | succ fuel ih =>
    obtain ⟨hvalue, hitems, hentries⟩ := ih
    refine ⟨fun depth cs v rest h => ?_, fun depth done cs v rest h hdone => ?_,
      fun depth done cs v rest h hdone => ?_⟩
    case refine_1 =>
      cases cs with
      | nil => cases h
      | cons c cs =>
        rw [value] at h
        split at h
        next =>
          obtain ⟨found, -, heq⟩ := map_eq_ok.mp h
          obtain ⟨rfl, -⟩ := Prod.mk.inj heq
          rfl
        split at h
        next =>
          split at h
          next => cases h
          split at h
          next =>
            obtain ⟨rfl, -⟩ := Prod.mk.inj (Except.ok.inj h)
            rfl
          next => exact hitems _ _ _ _ _ h fun _ hmem => nomatch hmem
        split at h
        next =>
          split at h
          next => cases h
          split at h
          next =>
            obtain ⟨rfl, -⟩ := Prod.mk.inj (Except.ok.inj h)
            rfl
          next => exact hentries _ _ _ _ _ h fun _ hmem => nomatch hmem
        next => exact isTame_leaf h
    case refine_2 =>
      rw [items] at h
      obtain ⟨⟨item, afterItem⟩, hitem, h⟩ := bind_eq_ok.mp h
      have hdone' : ∀ other ∈ item :: done, other.isTame :=
        List.forall_mem_cons.mpr ⟨hvalue _ _ _ _ hitem, hdone⟩
      dsimp only at h
      split at h
      · exact hitems _ _ _ _ _ h hdone'
      · obtain ⟨rfl, -⟩ := Prod.mk.inj (Except.ok.inj h)
        exact Value.areTame_iff.mpr fun other hother => hdone' other (List.mem_reverse.mp hother)
      · cases h
    case refine_3 =>
      unfold entries at h
      split at h
      next afterQuote =>
        obtain ⟨⟨key, afterKey⟩, -, h⟩ := bind_eq_ok.mp h
        dsimp only at h
        split at h
        next afterColon _ =>
          obtain ⟨⟨found, afterValue⟩, hfound, h⟩ := bind_eq_ok.mp h
          have hdone' := hdone.put ⟨key, rfl⟩ (hvalue _ _ _ _ hfound)
          dsimp only at h
          split at h
          · exact hentries _ _ _ _ _ h hdone'
          · obtain ⟨rfl, -⟩ := Prod.mk.inj (Except.ok.inj h)
            exact hdone'.isTame
          · cases h
        next => cases h
      next => cases h

/-- **Whatever is read from JSON is tame.** -/
theorem isTame_of_read {text : String} {v : Value} (h : read text = .ok v) : v.isTame := by
  unfold read at h
  obtain ⟨⟨found, rest⟩, hfound, h⟩ := bind_eq_ok.mp h
  dsimp only at h
  split at h
  · exact Except.ok.inj h ▸ (isTame_value _).1 _ _ _ _ hfound
  · cases h

end Json
end PipelineCompiler
