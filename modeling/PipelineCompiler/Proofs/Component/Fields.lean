import PipelineCompiler.Component.Loader

namespace PipelineCompiler

/-!
# Fields of serialized components

The loader goes down a value from field to field.  The fields of a mapping may be walked over in any
way; what counts is what stands under a name.

* `Value.under?` — what stands under a chain of fields;
* `walk_eq` — a walk to the first field with a name, by what stands there;
* `Value.readMapping`, `readMapping_of` — reading a mapping wherever it stands;
* `ofValueWith_eq`, `implementationOf_eq`, `graphOf_eq`, `taskOf_eq`, `referenceOf_eq` — the steps
  of the loader by the fields that they read;
* `sizeOf_under?_le`, `sizeOf_lt_of_mem` — what lies deeper is smaller;
* `withinCalls_eq_ok`, `withinCalls_eq_error` — what the limit on calls leaves of a result.
-/

/-! ### Open calls -/

/-- A result within the limit is that of the reading. -/
theorem withinCalls_eq_ok {α : Type} {limit calls : Nat} {result : Except Failure α} {a : α} :
    withinCalls limit calls result = .ok a ↔ result = .ok a ∧ calls ≤ limit := by
  unfold withinCalls
  split
  next h => exact (and_iff_left h).symm
  next h => exact ⟨fun he => (nomatch he), fun he => absurd he.2 h⟩

/-- A failure within the limit is that of the reading; otherwise there are too many calls. -/
theorem withinCalls_eq_error {α : Type} {limit calls : Nat} {result : Except Failure α}
    {e : Failure} : withinCalls limit calls result = .error e ↔
      (result = .error e ∧ calls ≤ limit) ∨ (limit < calls ∧ e = .illTyped) := by
  unfold withinCalls
  split
  next h =>
    exact ⟨fun he => .inl ⟨he, h⟩, fun he => he.elim (·.1) fun he =>
      absurd h (Nat.not_le.mpr he.1)⟩
  next h =>
    refine ⟨fun he => .inr ⟨Nat.not_le.mp h, (Except.error.inj he).symm⟩, fun he => ?_⟩
    rcases he with he | ⟨-, rfl⟩
    · exact absurd he.2 h
    · rfl

/-- What is read within the limit is read without it. -/
theorem parse_of_ofValue {v : Value} {c : Component} (h : Component.ofValue v = .ok c) :
    Component.parse v = .ok c :=
  (withinCalls_eq_ok.mp h).1

/-! ### Fields -/

/-- What stands under a chain of fields. -/
def Value.under? (v : Value) : List String → Option Value
  | [] => some v
  | name :: rest =>
    match v.bare with
    | .map fields => (Value.field? fields name).bind fun found => found.under? rest
    | _ => none

/-- A key is a text when it is equal to it. -/
theorem beq_str {key : Value} {name : String} : (key == .str name) = true ↔ key = .str name := by
  cases key with
  | str text => simp [BEq.beq, Value.beq]
  | _ => simp [BEq.beq, Value.beq]

/-- A value is null when it is equal to it. -/
theorem eq_null {v : Value} (h : (v == .null) = true) : v = .null := by
  cases v with
  | null => rfl
  | _ => cases h

/-- A name is a text that is not blank. -/
theorem nameOf?_eq_some {v : Value} {text : String} (h : nameOf? v = some text) :
    v = .str text ∧ Text.isBlankText text = false := by
  unfold nameOf? at h
  split at h
  · split at h
    · cases h
    next hblank =>
      obtain rfl := Option.some.inj h
      exact ⟨rfl, Bool.eq_false_iff.mpr hblank⟩
  · cases h

/-- The value under a name is the first one with the name as its key. -/
theorem field?_cons (key value : Value) (rest : Value.Entries) (name : String) :
    Value.field? ((key, value) :: rest) name =
      if key == .str name then some value else Value.field? rest name := by
  by_cases h : (key == .str name) = true
  · obtain rfl := beq_str.mp h
    rw [if_pos h, Value.field?, if_pos rfl]
  · rw [if_neg h]
    cases key with
    | str text =>
      rw [Value.field?, if_neg]
      rintro rfl
      exact h (beq_str.mpr rfl)
    | _ => rfl

/-- A field that is a text is there. -/
theorem field?_of_fieldOrNull {fields : Value.Entries} {name text : String}
    (h : Value.fieldOrNull fields name = .str text) :
    Value.field? fields name = some (.str text) := by
  rw [Value.fieldOrNull] at h
  cases hfield : Value.field? fields name with
  | none =>
    rw [hfield] at h
    cases h
  | some found =>
    rw [hfield] at h
    exact congrArg some h

/-- Fields of fields. -/
theorem under?_append (v : Value) (names others : List String) :
    v.under? (names ++ others) = (v.under? names).bind fun found => found.under? others := by
  induction names generalizing v with
  | nil => rfl
  | cons name rest ih =>
    rw [List.cons_append, Value.under?, Value.under?]
    split
    next fields _ =>
      cases Value.field? fields name with
      | none => rfl
      | some found => exact ih found
    next => rfl

/-- A field of a mapping. -/
theorem under?_field {v : Value} {fields : Value.Entries} (h : v.bare = .map fields)
    (name : String) : v.under? [name] = Value.field? fields name := by
  rw [Value.under?, h]
  dsimp only
  cases Value.field? fields name <;> rfl

/-- A function that walks over fields to the first one with a name is given by what stands there. -/
theorem walk_eq {β : Type} {name : String} {walk : Value.Entries → β} {found : Value → β}
    {absent : β} (hnil : walk [] = absent)
    (hcons : ∀ key value rest, walk ((key, value) :: rest) =
      if key == .str name then found value else walk rest) (fields : Value.Entries) :
    walk fields = (Value.field? fields name).elim absent found := by
  induction fields with
  | nil => exact hnil
  | cons entry rest ih =>
    obtain ⟨key, value⟩ := entry
    rw [hcons, field?_cons, ih]
    split <;> rfl

/-! ### Mappings -/

/-- Reads a mapping, wherever it stands; other values have a fault. -/
def Value.readMapping {α : Type} (fault : Failure) (body : Value.Entries → Except Failure α)
    (v : Value) : Except Failure α :=
  match v.bare with
  | .map fields => body fields
  | .endless => .error .illTyped
  | _ => .error fault

/-- A step that passes over places reads a mapping. -/
theorem readMapping_of {α : Type} {read : Value → Except Failure α}
    {body : Value.Entries → Except Failure α} {fault : Failure}
    (hread : ∀ v, read v = match v with
      | .map fields => body fields
      | .placed _ v => read v
      | .endless => .error .illTyped
      | _ => .error fault) (v : Value) : read v = v.readMapping fault body := by
  unfold Value.readMapping
  induction v using Value.bare.induct with
  | case1 place v ih =>
    rw [hread]
    exact ih
  | case2 v hbare =>
    rw [hread]
    cases v with
    | placed place inner => exact absurd rfl (hbare place inner)
    | _ => rfl

/-- What is read from a mapping. -/
theorem readMapping_eq_ok {α : Type} {body : Value.Entries → Except Failure α} {fault : Failure}
    {v : Value} {a : α} :
    v.readMapping fault body = .ok a ↔ ∃ fields, v.bare = .map fields ∧
      body fields = .ok a := by
  unfold Value.readMapping
  cases v.bare <;> simp

/-! ### The steps of the loader -/

section Loader

variable (readText : String → Except Failure Component)

/-- A component is read from its fields. -/
theorem ofValueWith_eq (v : Value) : Component.ofValueWith readText v =
    v.readMapping (.ofSpec .notAComponent) (fun fields => do
      let implementation ← Component.implementationField readText fields
      let inputs ← InputSpec.ofValues (Value.fieldOrNull fields "inputs")
      let outputs ← OutputSpec.ofValues (Value.fieldOrNull fields "outputs")
      let metadata ← Value.mappingOrEmpty (Value.fieldOrNull fields "metadata")
      pure { implementation, inputs, outputs, metadata
             name := Value.fieldOrNull fields "name"
             description := Value.fieldOrNull fields "description" }) :=
  readMapping_of (fun v => by cases v <;> rfl) v

/-- The implementation of a component has a field. -/
theorem implementationField_eq (fields : Value.Entries) :
    Component.implementationField readText fields =
      (Value.field? fields "implementation").elim (.error (.ofSpec (.missing "implementation")))
        (Component.implementationOf readText) :=
  walk_eq rfl (fun _ _ _ => by rw [Component.implementationField]) fields

/-- An implementation is a container, or else a graph. -/
theorem implementationOf_eq (v : Value) : Component.implementationOf readText v =
    v.readMapping (.ofSpec (.notAMapping "implementation")) fun fields =>
      match Value.field? fields "container" with
      | some container => (Container.ofValue container).map .container
      | none => Component.graphField readText fields fields :=
  readMapping_of (fun v => by cases v <;> rfl) v

/-- A graph has a field. -/
theorem graphField_eq (all fields : Value.Entries) :
    Component.graphField readText all fields =
      (Value.field? fields "graph").elim (.error (unsupportedImplementation all)) fun found =>
        (Component.graphOf readText found).map .graph :=
  walk_eq rfl (fun _ _ _ => by rw [Component.graphField]) fields

/-- A graph is read from its fields. -/
theorem graphOf_eq (v : Value) : Component.graphOf readText v =
    v.readMapping (.ofSpec (.notAMapping "implementation.graph")) (fun fields => do
      let tasks ← Component.tasksField readText fields
      let outputValues ← outputValuesOf (Value.fieldOrNull fields "outputValues")
      pure { tasks, outputValues }) :=
  readMapping_of (fun v => by cases v <;> rfl) v

/-- The tasks of a graph have a field. -/
theorem tasksField_eq (fields : Value.Entries) : Component.tasksField readText fields =
    (Value.field? fields "tasks").elim (.error (.ofSpec (.notAMapping "graph.tasks")))
      (Component.tasksOf readText) :=
  walk_eq rfl (fun _ _ _ => by rw [Component.tasksField]) fields

/-- Tasks are the entries of a mapping. -/
theorem tasksOf_eq (v : Value) : Component.tasksOf readText v =
    v.readMapping (.ofSpec (.notAMapping "graph.tasks")) (Component.taskEntries readText []) :=
  readMapping_of (fun v => by cases v <;> rfl) v

/-- A task is read from its fields. -/
theorem taskOf_eq (v : Value) : Component.taskOf readText v =
    v.readMapping (.ofSpec (.notAMapping "task")) (fun fields => do
      if (Value.field? fields "componentRef").isNone then
        throw (.ofSpec (.missing "task.componentRef"))
      let arguments ← namedEntries "task.arguments" (Value.fieldOrNull fields "arguments")
      let reference ← Component.referenceField readText fields
      let arguments ← readEntries Argument.parse arguments
      let annotations ← Value.mappingOrEmpty (Value.fieldOrNull fields "annotations")
      pure { reference, arguments, annotations }) :=
  readMapping_of (fun v => by cases v <;> rfl) v

/-- The reference of a task has a field. -/
theorem referenceField_eq (fields : Value.Entries) : Component.referenceField readText fields =
    (Value.field? fields "componentRef").elim (.error (.ofSpec (.missing "task.componentRef")))
      (Component.referenceOf readText) :=
  walk_eq rfl (fun _ _ _ => by rw [Component.referenceField]) fields

/-- A reference is read from its fields. -/
theorem referenceOf_eq (v : Value) : Component.referenceOf readText v =
    v.readMapping (.ofSpec (.notAMapping "componentRef")) (fun fields => do
      let given ← Component.specField readText fields
      let spec ←
        match given, nameOf? (Value.fieldOrNull fields "text") with
        | some spec, _ => pure (some spec)
        | none, some text => (readText text).map some
        | none, none => pure none
      pure { spec
             name := Value.fieldOrNull fields "name"
             digest := Value.fieldOrNull fields "digest"
             tag := Value.fieldOrNull fields "tag"
             url := Value.fieldOrNull fields "url" }) :=
  readMapping_of (fun v => by cases v <;> rfl) v

/-- The component of a reference is read from its field, unless that is null. -/
theorem specField_eq (fields : Value.Entries) : Component.specField readText fields =
    (Value.field? fields "spec").elim (.ok none) fun found =>
      if found == .null then .ok none else (Component.ofValueWith readText found).map some :=
  walk_eq rfl (fun _ _ _ => by rw [Component.specField]) fields

end Loader

/-! ### What lies deeper is smaller -/

/-- A value without its place is no larger. -/
theorem sizeOf_bare_le (v : Value) : sizeOf v.bare ≤ sizeOf v := by
  induction v using Value.bare.induct with
  | case1 place v ih =>
    rw [Value.bare, Value.placed.sizeOf_spec]
    omega
  | case2 v hbare =>
    cases v with
    | placed place inner => exact absurd rfl (hbare place inner)
    | _ => exact Nat.le_refl _

/-- The value in an entry is smaller than the entries. -/
theorem sizeOf_entry_lt {entries : Value.Entries} {key value : Value}
    (h : (key, value) ∈ entries) : sizeOf value < sizeOf entries := by
  have hentry := List.sizeOf_lt_of_mem h
  rw [Prod.mk.sizeOf_spec] at hentry
  omega

/-- A field is an entry. -/
theorem mem_of_field? {fields : Value.Entries} {name : String} {v : Value}
    (h : Value.field? fields name = some v) : (.str name, v) ∈ fields := by
  induction fields with
  | nil => cases h
  | cons entry rest ih =>
    obtain ⟨key, value⟩ := entry
    rw [field?_cons] at h
    split at h
    next hkey =>
      obtain rfl := beq_str.mp hkey
      obtain rfl := Option.some.inj h
      exact List.mem_cons_self
    next => exact List.mem_cons_of_mem _ (ih h)

/-- What stands under fields is no larger than the value. -/
theorem sizeOf_under?_le {v w : Value} {names : List String} (h : v.under? names = some w) :
    sizeOf w ≤ sizeOf v := by
  induction names generalizing v with
  | nil =>
    obtain rfl := Option.some.inj h
    exact Nat.le_refl _
  | cons name rest ih =>
    rw [Value.under?] at h
    split at h
    next fields hbare =>
      obtain ⟨found, hfound, hrest⟩ := Option.bind_eq_some_iff.mp h
      have hfield := sizeOf_entry_lt (mem_of_field? hfound)
      have hfields := sizeOf_bare_le v
      rw [hbare, Value.map.sizeOf_spec] at hfields
      have hfound := ih hrest
      omega
    next => cases h

/-- The value in an entry is smaller than what the entries are the mapping of. -/
theorem sizeOf_lt_of_mem {v key value : Value} {entries : Value.Entries}
    (hbare : v.bare = .map entries) (h : (key, value) ∈ entries) : sizeOf value < sizeOf v := by
  have hentry := sizeOf_entry_lt h
  have hv := sizeOf_bare_le v
  rw [hbare, Value.map.sizeOf_spec] at hv
  omega

end PipelineCompiler
