import PipelineCompiler.Proofs.Tame
import PipelineCompiler.Proofs.Unattributed

namespace PipelineCompiler

/-!
# How the parts of a serialized component fail

The parts of a component without tasks fail with the errors of the loader, or else with an accident
where a value cannot be shown or its keys cannot be listed.

* `IsOfLoader`, `Value.TameFor` — properties that the errors of the loader have, and values with
  which no accident happens unless accidents have the property, too;
* `failsAs_placeholder`, `failsAs_argument`, `failsAs_container` — placeholders, arguments and
  containers;
* `failsAs_inputs`, `failsAs_outputs`, `failsAs_outputValues` — interfaces, and outputs of graphs;
* `failsAs_namedEntries`, `failsAs_readEntries` — mappings with named entries;
* `isOfLoader_unattributed`, `unattributed_mappingOrEmpty` — everything without tasks fails at no
  task.
-/

/-! ### Errors and accidents -/

/-- A property of failures that the errors of the loader have. -/
structure IsOfLoader (p : Failure → Prop) : Prop where
  spec : ∀ fault, p (.ofSpec fault)
  placeholder : ∀ fault, p (.ofPlaceholder fault)

/-- Something holds, unless accidents have a property anyway. -/
def UnlessAccident (p : Failure → Prop) (holds : Prop) : Prop :=
  holds ∨ ∀ found, p (.accident found)

/-- What follows from it. -/
theorem UnlessAccident.imp {p : Failure → Prop} {a b : Prop} (h : UnlessAccident p a)
    (hab : a → b) : UnlessAccident p b := h.imp_left hab

/-- A value can be shown and its keys can be listed, unless accidents have a property anyway. -/
def Value.TameFor (p : Failure → Prop) (v : Value) : Prop := UnlessAccident p v.isTame

/-- The keys and values of entries are such values. -/
def Value.TameEntries (p : Failure → Prop) (entries : Value.Entries) : Prop :=
  ∀ entry ∈ entries, entry.1.TameFor p ∧ entry.2.TameFor p

section Tame

variable {p : Failure → Prop} {v : Value} {fields : Value.Entries}

/-- Those of a mapping. -/
theorem Value.TameFor.entries (h : v.TameFor p) (hbare : v.bare = .map fields) :
    Value.TameEntries p fields := fun entry hentry =>
  ⟨h.imp fun h => (Value.isTame_entries h hbare entry hentry).1,
    h.imp fun h => (Value.isTame_entries h hbare entry hentry).2⟩

/-- The keys of a mapping. -/
theorem Value.TameFor.listed (h : v.TameFor p) (hbare : v.bare = .map fields) :
    UnlessAccident p (Value.areListed (fields.map (·.1)) = true) :=
  h.imp fun h => Value.areListed_of_isTame h hbare

/-- The items of a list. -/
theorem Value.TameFor.items {items : List Value} (h : v.TameFor p) (hbare : v.bare = .list items) :
    ∀ item ∈ items, item.TameFor p := fun item hitem =>
  h.imp fun h => Value.isTame_items h hbare item hitem

/-- A field. -/
theorem Value.TameEntries.field? (h : Value.TameEntries p fields) {name : String}
    (hfield : Value.field? fields name = some v) : v.TameFor p := (h _ (mem_of_field? hfield)).2

/-- A field that may be absent. -/
theorem Value.TameEntries.fieldOrNull (h : Value.TameEntries p fields) (name : String) :
    (Value.fieldOrNull fields name).TameFor p := by
  rw [Value.fieldOrNull]
  cases hfield : Value.field? fields name with
  | none => exact .inl rfl
  | some v => exact h.field? hfield

/-- What stands under fields. -/
theorem Value.TameFor.under? {w : Value} {names : List String} (h : v.TameFor p)
    (hunder : v.under? names = some w) : w.TameFor p :=
  h.imp fun h => Value.isTame_of_under? h hunder

end Tame

/-- A step for each item of a list, from the result of the one before. -/
theorem failsOnly_foldlM_of_mem {α β : Type} {p : Failure → Prop}
    {f : β → α → Except Failure β}
    {items : List α} (hf : ∀ b, ∀ a ∈ items, FailsOnly p (f b a)) (start : β) :
    FailsOnly p (items.foldlM f start) := by
  induction items generalizing start with
  | nil => exact failsOnly_ok start
  | cons a rest ih =>
    rw [List.foldlM_cons]
    exact (hf start a List.mem_cons_self).bind fun b _ =>
      ih (fun b a ha => hf b a (List.mem_cons_of_mem _ ha)) b

section Parts

variable {p : Failure → Prop}

/-! ### Values that are shown -/

/-- A failure whose values are shown. -/
theorem failsAs_showing {values : List Value}
    (hshown : UnlessAccident p (values.all Value.isShown = true)) {e : Failure} (h : p e) :
    p (Failure.showing values e) := by
  rw [Failure.showing]
  split
  · exact h
  next hnot => exact hshown.elim (fun hall => absurd hall hnot) fun haccident => haccident _

/-- A value that is shown. -/
theorem failsAs_shownText {v : Value} (h : v.TameFor p) : FailsOnly p v.shownText := by
  rw [Value.shownText]
  split
  · exact failsOnly_ok _
  next hnot =>
    exact failsOnly_error (h.elim (fun htame => absurd (Value.isShown_of_isTame htame) hnot)
      fun haccident => haccident _)

/-- A scalar that is shown. -/
theorem failsAs_scalarText {v : Value} (h : v.TameFor p) : FailsOnly p (scalarText? v) := by
  unfold scalarText?
  split
  · exact failsOnly_ok _
  · exact (failsAs_shownText h).map _
  · exact (failsAs_shownText h).map _
  · exact (failsAs_shownText h).map _
  · exact failsOnly_ok _

/-- The failure of keys that are listed. -/
theorem failsAs_listed {keys : List Value} (h : UnlessAccident p (Value.areListed keys = true))
    {fault : List Value → Failure} (hfault : ∀ sorted, p (fault sorted)) :
    p (match Value.arranged? keys with
      | some sorted => .showing sorted (fault sorted)
      | none => .illTyped) := by
  unfold Value.areListed at h
  split
  next sorted hsorted =>
    rw [hsorted] at h
    exact failsAs_showing h (hfault sorted)
  next hnone =>
    rw [hnone] at h
    exact h.elim (fun hnever => nomatch hnever) fun haccident => haccident _

/-- The kind of a mapping with one key is shown. -/
theorem shown_kind {v kind value : Value} (h : v.TameFor p)
    (hbare : v.bare = .map [(kind, value)]) :
    UnlessAccident p ([kind].all Value.isShown = true) := by
  refine (h.entries hbare _ List.mem_cons_self).1.imp fun hkind => ?_
  rw [List.all_cons, List.all_nil, Bool.and_true]
  exact Value.isShown_of_isTame hkind

/-- A value that contains itself fails with an accident. -/
theorem failsAs_endless {α : Type} (h : Value.endless.TameFor p) :
    FailsOnly p (.error .illTyped : Except Failure α) :=
  failsOnly_error (h.elim (fun hnever => absurd hnever Bool.false_ne_true) fun haccident =>
    haccident _)

/-- The named entries of a tame value are tame. -/
theorem tame_namedEntries {what : String} {v : Value} {entries : Value.Entries} (h : v.TameFor p)
    (hentries : namedEntries what v = .ok entries) :
    Value.TameEntries p entries := by
  unfold namedEntries at hentries
  split at hentries
  · split at hentries
    next fields hbare => exact Except.ok.inj hentries ▸ h.entries hbare
    next => cases hentries
  · obtain rfl := Except.ok.inj hentries
    exact fun _ hmem => nomatch hmem

/-- Named entries fail as their values do. -/
theorem failsAs_readEntries {α : Type} {read : Value → Except Failure α}
    {entries : Value.Entries}
    (hread : ∀ v, v.TameFor p → FailsOnly p (read v))
    (h : Value.TameEntries p entries) :
    FailsOnly p (readEntries read entries) :=
  failsOnly_foldlM_of_mem (fun _ entry hentry =>
    (failsAs_shownText (h entry hentry).1).bind fun _ _ =>
      (hread _ (h entry hentry).2).bind fun _ _ => failsOnly_ok _) []

/-- The items of a list are those of the value. -/
theorem bare_of_mem_itemsOf {what : String} {v item : Value} {items : List Value}
    (h : itemsOf what v = .ok items) (hitem : item ∈ items) : v.bare = .list items := by
  unfold itemsOf at h
  split at h
  · split at h
    next found hbare => exact Except.ok.inj h ▸ hbare
    next => cases h
  · obtain rfl := Except.ok.inj h
    cases hitem

/-- The fields of an item are those of the mapping that it is. -/
theorem fieldsAt_eq_ok {place : String} {v : Value} {fields : Value.Entries}
    (h : fieldsAt place v = .ok fields) : v.bare = .map fields := by
  unfold fieldsAt at h
  split at h
  next found hbare => exact Except.ok.inj h ▸ hbare
  next => cases h

/-- The annotations of the items in a value are read. -/
def Value.ListsAnnotated (p : Failure → Prop) (v : Value) : Prop :=
  ∀ items item annotations, v.bare = .list items → item ∈ items →
    item.under? ["annotations"] = some annotations → FailsOnly p annotations.mappingOrEmpty

/-- The annotations of an item. -/
theorem failsAs_annotations {item : Value} {fields : Value.Entries}
    (hbare : item.bare = .map fields)
    (h : ∀ annotations, item.under? ["annotations"] = some annotations →
      FailsOnly p annotations.mappingOrEmpty) :
    FailsOnly p (Value.mappingOrEmpty (Value.fieldOrNull fields "annotations")) := by
  rw [Value.fieldOrNull]
  cases hfield : Value.field? fields "annotations" with
  | none => exact failsOnly_ok _
  | some annotations => exact h annotations ((under?_field hbare _).trans hfield)

variable (hp : IsOfLoader p)

include hp

/-- A mapping that has not one key. -/
theorem failsAs_notOneKey (what : String) {entries : Value.Entries}
    (h : UnlessAccident p (Value.areListed (entries.map (·.1)) = true)) :
    p (notOneKey what entries) := failsAs_listed h fun _ => hp.placeholder _

/-! ### Mappings with named entries -/

/-- A mapping with named entries. -/
theorem failsAs_namedEntries (what : String) (v : Value) :
    FailsOnly p (namedEntries what v) := by
  unfold namedEntries
  split
  · split
    · exact failsOnly_ok _
    · exact failsOnly_error (hp.spec _)
  · exact failsOnly_ok _

/-! ### Placeholders -/

/-- A name that is not there. -/
theorem failsAs_nameUnder (kind noun : String) (v : Value) :
    FailsOnly p (nameUnder kind noun v) := by
  unfold nameUnder
  split
  · exact failsOnly_ok _
  · exact failsOnly_error (hp.spec _)

/-- A condition. -/
theorem failsAs_condition {v : Value} (h : v.TameFor p) :
    FailsOnly p (Condition.ofValue v) := by
  unfold Condition.ofValue
  split
  · exact failsOnly_ok _
  · exact failsOnly_ok _
  next hbare =>
    split
    · exact (failsAs_nameUnder hp _ _ _).map _
    · split
      · exact (failsAs_nameUnder hp _ _ _).map _
      · exact failsOnly_error (failsAs_showing (shown_kind h hbare) (hp.placeholder _))
  next hbare => exact failsOnly_error (failsAs_notOneKey hp _ (h.listed hbare))
  next => exact failsOnly_error (hp.placeholder _)

/-- A placeholder that is no mapping. -/
theorem failsAs_ofScalar {v : Value} (h : v.TameFor p) :
    FailsOnly p (Placeholder.ofScalar v) := by
  refine (failsAs_scalarText h).bind fun text _ => ?_
  split
  · exact failsOnly_ok _
  · refine failsOnly_error (failsAs_showing (h.imp fun htame => ?_) (hp.placeholder _))
    rw [List.all_cons, List.all_nil, Bool.and_true]
    exact Value.isShown_of_isTame htame

omit hp

mutual

/-- **A placeholder has its errors.** -/
theorem failsAs_placeholder (hp : IsOfLoader p) :
    ∀ v : Value, v.TameFor p → FailsOnly p (Placeholder.parse v)
  | .map [(kind, value)] => fun h => by
    have hvalue := (h.entries rfl _ List.mem_cons_self).2
    rw [Placeholder.parse]
    -- The kinds of placeholders one after another, in the order in which the reader looks for them.
    split
    · exact (failsAs_nameUnder hp _ _ _).map _
    split
    · exact (failsAs_nameUnder hp _ _ _).map _
    split
    · exact (failsAs_nameUnder hp _ _ _).map _
    split
    · exact (failsAs_listOf hp "concat" value hvalue).map _
    split
    · exact failsAs_branchOf hp value hvalue
    · exact failsOnly_error (failsAs_showing (shown_kind h rfl) (hp.placeholder _))
  -- With no key or several of them, all keys are listed in the message; this is where a key must be
  -- one that can be listed.
  | .map [] => fun h => by
    rw [Placeholder.parse]
    · exact failsOnly_error (failsAs_notOneKey hp _ (h.listed rfl))
    · exact fun _ _ he => nomatch he
  | .map (_ :: _ :: _) => fun h => by
    rw [Placeholder.parse]
    · exact failsOnly_error (failsAs_notOneKey hp _ (h.listed rfl))
    · exact fun _ _ he => nomatch he
  | .placed place v => fun h => by
    rw [Placeholder.parse]
    split
    · exact failsAs_placeholder hp v h
    · exact failsAs_ofScalar hp h
  | .endless => fun h => failsAs_endless h
  | .null | .bool _ | .int _ | .float _ | .str _ | .bytes _ | .date _ | .timestamp _ | .list _
  | .tuple _ | .set _ => fun h => failsAs_ofScalar hp h

/-- A list of placeholders. -/
theorem failsAs_listOf (hp : IsOfLoader p) (what : String) :
    ∀ v : Value, v.TameFor p → FailsOnly p (Placeholder.listOf what v)
  | .list items => fun h => by
    rw [Placeholder.listOf]
    exact failsAs_ofValues hp items (h.items rfl)
  | .placed _ v => fun h => by
    rw [Placeholder.listOf]
    exact failsAs_listOf hp what v h
  | .endless => fun h => failsAs_endless h
  | .null | .bool _ | .int _ | .float _ | .str _ | .bytes _ | .date _ | .timestamp _ | .map _
  | .tuple _ | .set _ => fun _ => failsOnly_error (hp.spec _)

/-- Placeholders one after another. -/
theorem failsAs_ofValues (hp : IsOfLoader p) :
    ∀ items : List Value, (∀ item ∈ items, item.TameFor p) →
    FailsOnly p (Placeholder.ofValues items)
  | [] => fun _ => failsOnly_ok _
  | item :: rest => fun h => by
    obtain ⟨hitem, hrest⟩ := List.forall_mem_cons.mp h
    rw [Placeholder.ofValues]
    exact (failsAs_placeholder hp item hitem).bind fun _ _ => (failsAs_ofValues hp rest hrest).bind
      fun _ _ => failsOnly_ok _

/-- A condition with its branches. -/
theorem failsAs_branchOf (hp : IsOfLoader p) :
    ∀ v : Value, v.TameFor p → FailsOnly p (Placeholder.branchOf v)
  | .map fields => fun h => by
    have hfields := h.entries rfl
    rw [Placeholder.branchOf]
    split
    next condition hcondition =>
      dsimp only
      -- A condition without branches is refused before it is read.
      split
      · exact failsOnly_error (hp.spec _)
      · exact (failsAs_condition hp (hfields.field? hcondition)).bind fun _ _ =>
          (failsAs_yesOf hp fields hfields).bind fun _ _ =>
            (failsAs_noOf hp fields hfields).bind fun _ _ => failsOnly_ok _
    next => exact failsOnly_error (hp.spec _)
  | .placed _ v => fun h => by
    rw [Placeholder.branchOf]
    exact failsAs_branchOf hp v h
  | .endless => fun h => failsAs_endless h
  | .null | .bool _ | .int _ | .float _ | .str _ | .bytes _ | .date _ | .timestamp _ | .list _
  | .tuple _ | .set _ => fun _ => failsOnly_error (hp.spec _)

/-- The branch that is taken when the condition holds. -/
theorem failsAs_yesOf (hp : IsOfLoader p) : ∀ fields : List (Value × Value),
    Value.TameEntries p fields →
    FailsOnly p (Placeholder.yesOf fields)
  | [] => fun _ => failsOnly_error (hp.spec _)
  | (key, value) :: rest => fun h => by
    obtain ⟨hentry, hrest⟩ := List.forall_mem_cons.mp h
    rw [Placeholder.yesOf]
    split
    · exact failsAs_listOf hp _ value hentry.2
    · exact failsAs_yesOf hp rest hrest

/-- The other branch. -/
theorem failsAs_noOf (hp : IsOfLoader p) : ∀ fields : List (Value × Value),
    Value.TameEntries p fields →
    FailsOnly p (Placeholder.noOf fields)
  | [] => fun _ => failsOnly_ok _
  | (key, value) :: rest => fun h => by
    obtain ⟨hentry, hrest⟩ := List.forall_mem_cons.mp h
    rw [Placeholder.noOf]
    split
    · split
      · exact failsOnly_ok _
      · exact (failsAs_listOf hp _ value hentry.2).map _
    · exact failsAs_noOf hp rest hrest

end

include hp
/-! ### Arguments -/

/-- A name that an argument needs. -/
theorem failsAs_requiredName (fields : Value.Entries) (kind name : String) :
    FailsOnly p (requiredName fields kind name) := by
  unfold requiredName
  split
  · exact failsOnly_ok _
  · exact failsOnly_error (hp.spec _)

/-- An argument of a kind. -/
theorem failsAs_ofKind (kind v : Value) : FailsOnly p (Argument.ofKind kind v) := by
  unfold Argument.ofKind
  split
  · split
    · exact (failsAs_requiredName hp _ _ _).bind fun _ _ => failsOnly_ok _
    · split
      · exact (failsAs_requiredName hp _ _ _).bind fun _ _ =>
          (failsAs_requiredName hp _ _ _).bind fun _ _ => failsOnly_ok _
      · exact failsOnly_error (hp.spec _)
  · exact failsOnly_error (hp.spec _)

/-- **An argument has its errors.** -/
theorem failsAs_argument (v : Value) (h : v.TameFor p) :
    FailsOnly p (Argument.parse v) := by
  refine (failsAs_scalarText h).bind fun text _ => ?_
  split
  · exact failsOnly_ok _
  · split
    next =>
      split
      · exact failsAs_ofKind hp _ _
      next hbare => exact failsOnly_error (failsAs_notOneKey hp _ (h.listed hbare))
      next => exact failsOnly_error (hp.spec _)
    next hnot =>
      exact failsOnly_error (h.elim (fun htame => absurd (Value.isShown_of_isTame htame) hnot)
        fun haccident => haccident _)

/-! ### Interfaces -/

/-- The items of a list. -/
theorem failsAs_itemsOf (what : String) (v : Value) : FailsOnly p (itemsOf what v) := by
  unfold itemsOf
  split
  · split
    · exact failsOnly_ok _
    · exact failsOnly_error (hp.spec _)
  · exact failsOnly_ok _

/-- The fields of an item. -/
theorem failsAs_fieldsAt (place : String) (v : Value) :
    FailsOnly p (fieldsAt place v) := by
  unfold fieldsAt
  split
  · exact failsOnly_ok _
  · exact failsOnly_error (hp.spec _)

/-- The name of an item. -/
theorem failsAs_declaredName (noun place : String) (seen : List String) (fields : Value.Entries) :
    FailsOnly p (declaredName noun place seen fields) := by
  unfold declaredName
  split
  · exact failsOnly_error (hp.spec _)
  · split
    · exact failsOnly_error (hp.spec _)
    · exact failsOnly_ok _

/-- The default of an input. -/
theorem failsAs_defaultText {v : Value} (h : v.TameFor p) :
    FailsOnly p (defaultText v) := by
  unfold defaultText
  split
  · exact failsOnly_ok _
  · refine (failsAs_scalarText h).bind fun text _ => ?_
    split
    · exact failsOnly_ok _
    · exact failsOnly_error (hp.spec _)

/-- Whether an input is optional. -/
theorem failsAs_optionality (place : String) (fields : Value.Entries) :
    FailsOnly p (optionality place fields) := by
  unfold optionality
  split
  · exact failsOnly_ok _
  · exact failsOnly_ok _
  · exact failsOnly_error (hp.spec _)

/-- Inputs one after another. -/
theorem failsAs_inputItems {items : List Value} (h : ∀ item ∈ items, item.TameFor p)
    (hannotations : ∀ item ∈ items, ∀ annotations,
      item.under? ["annotations"] = some annotations →
      FailsOnly p annotations.mappingOrEmpty) (seen : List String) (index : Nat) :
    FailsOnly p (InputSpec.ofItems seen index items) := by
  -- By induction on the items, field by field in the order in which they are read.
  induction items generalizing seen index with
  | nil => exact failsOnly_ok _
  | cons item rest ih =>
    obtain ⟨hitem, hrest⟩ := List.forall_mem_cons.mp h
    obtain ⟨hfree, hothers⟩ := List.forall_mem_cons.mp hannotations
    refine FailsOnly.bind ?_ fun input _ => (ih hrest hothers _ _).bind fun _ _ => failsOnly_ok _
    refine (failsAs_fieldsAt hp _ item).bind fun fields hfields => ?_
    have hbare := fieldsAt_eq_ok hfields
    refine (failsAs_declaredName hp _ _ _ fields).bind fun name _ => ?_
    refine (failsAs_optionality hp _ fields).bind fun isOptional _ => ?_
    refine (failsAs_defaultText hp ((hitem.entries hbare).fieldOrNull "default")).bind
      fun default _ => ?_
    exact (failsAs_annotations hbare hfree).bind fun _ _ => failsOnly_ok _

/-- **The inputs of a component have their errors**, when their annotations are read. -/
theorem failsAs_inputs {v : Value} (h : v.TameFor p) (hannotations : v.ListsAnnotated p) :
    FailsOnly p (InputSpec.ofValues v) :=
  (failsAs_itemsOf hp _ v).bind fun items hitems =>
    failsAs_inputItems hp (fun item hitem => h.items (bare_of_mem_itemsOf hitems hitem) item hitem)
      (fun item hitem annotations =>
        hannotations items item annotations (bare_of_mem_itemsOf hitems hitem) hitem) [] 0

/-- Outputs one after another. -/
theorem failsAs_outputItems {items : List Value}
    (hannotations : ∀ item ∈ items, ∀ annotations,
      item.under? ["annotations"] = some annotations →
      FailsOnly p annotations.mappingOrEmpty) (seen : List String) (index : Nat) :
    FailsOnly p (OutputSpec.ofItems seen index items) := by
  induction items generalizing seen index with
  | nil => exact failsOnly_ok _
  | cons item rest ih =>
    obtain ⟨hfree, hothers⟩ := List.forall_mem_cons.mp hannotations
    refine FailsOnly.bind ?_ fun output _ => (ih hothers _ _).bind fun _ _ => failsOnly_ok _
    refine (failsAs_fieldsAt hp _ item).bind fun fields hfields => ?_
    refine (failsAs_declaredName hp _ _ _ fields).bind fun name _ => ?_
    exact (failsAs_annotations (fieldsAt_eq_ok hfields) hfree).bind fun _ _ => failsOnly_ok _

/-- **The outputs of a component have their errors**, when their annotations are read. -/
theorem failsAs_outputs {v : Value} (hannotations : v.ListsAnnotated p) :
    FailsOnly p (OutputSpec.ofValues v) :=
  (failsAs_itemsOf hp _ v).bind fun items hitems =>
    failsAs_outputItems hp (fun item hitem annotations =>
      hannotations items item annotations (bare_of_mem_itemsOf hitems hitem) hitem) [] 0

/-! ### Implementations -/

/-- A command line. -/
theorem failsAs_commandLine (what : String) {v : Value} (h : v.TameFor p) :
    FailsOnly p (commandLine what v) := by
  unfold commandLine
  split
  · exact failsOnly_ok _
  · exact (failsAs_listOf hp what v h).map _

/-- **A container has its errors.** -/
theorem failsAs_container {v : Value} (h : v.TameFor p) :
    FailsOnly p (Container.ofValue v) := by
  unfold Container.ofValue
  split
  next fields hbare =>
    have hfields := h.entries hbare
    split
    next image _ =>
      refine (failsAs_namedEntries hp _ _).bind fun env henv => ?_
      refine (failsAs_commandLine hp _ (hfields.fieldOrNull "command")).bind
        fun command _ => ?_
      refine (failsAs_commandLine hp _ (hfields.fieldOrNull "args")).bind fun args _ => ?_
      exact (failsAs_readEntries (failsAs_placeholder hp)
        (tame_namedEntries (hfields.fieldOrNull "env") henv)).bind fun _ _ =>
          failsOnly_ok _
    next => exact failsOnly_error (hp.spec _)
  next => exact failsOnly_error (hp.spec _)

/-- An implementation that is neither a container nor a graph. -/
theorem failsAs_unsupportedImplementation {fields : Value.Entries}
    (h : UnlessAccident p (Value.areListed (fields.map (·.1)) = true)) :
    p (unsupportedImplementation fields) := failsAs_listed h fun _ => hp.spec _

/-- **The outputs of a graph have their errors**, when they are a mapping or nothing. -/
theorem failsAs_outputValues {v : Value} (h : v.TameFor p)
    (hmapping : UnlessAccident p (v.isTruthy = true → v.isMapping = true)) :
    FailsOnly p (outputValuesOf v) := by
  unfold outputValuesOf
  split
  next htruthy =>
    split
    next entries hbare =>
      have hentries := h.entries hbare
      refine failsOnly_foldlM_of_mem (fun done entry hentry => ?_) _
      refine (failsAs_argument hp entry.2 (hentries entry hentry).2).bind fun argument _ => ?_
      refine (failsAs_shownText (hentries entry hentry).1).bind fun name _ => ?_
      split
      · exact failsOnly_ok _
      · exact failsOnly_error (hp.spec _)
    next hnot =>
      -- Something that is no mapping has no entries to iterate over: this is an accident, and the
      -- assumption excludes it.
      refine failsOnly_error (hmapping.elim (fun himp => ?_) fun haccident => haccident _)
      have hmap := himp htruthy
      unfold Value.isMapping at hmap
      split at hmap
      next entries hbare => exact absurd hbare (hnot entries)
      next => cases hmap
  next => exact failsOnly_ok _

end Parts

/-! ### Failures at no task -/

/-- The errors of the loader belong to no task. -/
theorem isOfLoader_unattributed : IsOfLoader Failure.Unattributed :=
  ⟨unattributed_ofSpec, unattributed_ofPlaceholder⟩

/-- Neither do accidents. -/
theorem unless_unattributed (holds : Prop) : UnlessAccident Failure.Unattributed holds :=
  .inr unattributed_accident

/-- A free-form mapping. -/
theorem unattributed_mappingOrEmpty (v : Value) :
    FailsOnly Failure.Unattributed v.mappingOrEmpty := by
  unfold Value.mappingOrEmpty
  split
  · exact failsOnly_mappingOf isLenient_unattributed v
  · exact failsOnly_ok _

end PipelineCompiler
