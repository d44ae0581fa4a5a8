import PipelineCompiler.Proofs.Component.Deeper
import PipelineCompiler.Proofs.Component.Fields
import PipelineCompiler.Proofs.Component.Parts

namespace PipelineCompiler

/-!
# Where errors of the loader belong

* `Value.HasTask`, `Value.RefersTo` — the entries of tasks in a serialized component, and the
  component that an entry refers to, as a value or as text;
* `Value.LeadsTo` — a chain of tasks leads to the entry of the last one;
* `Component.TaskFails` — an entry alone cannot be read;
* `ofValueWith_error`, `taskOf_error` — where the loader fails with an error that belongs to a
  task;
* `Value.Attributed`, `ofValue_attributed` — every such error is one with which the entry at the
  end of its path fails.
-/

/-! ### Tasks in serialized components -/

/-- The entry of a task with an id, which is the text of its key. -/
def Value.HasTask (v : Value) (id : String) (entry : Value) : Prop :=
  ∃ tasks entries key, v.under? ["implementation", "graph", "tasks"] = some tasks ∧
    tasks.bare = .map entries ∧ (key, entry) ∈ entries ∧ key.isShown ∧ key.text = id

/-- The component that the entry of a task refers to.  It may be given as text unless it is given as
    a value. -/
inductive Value.RefersTo (entry : Value) : Value → Prop
  | spec {component : Value} (given : entry.under? ["componentRef", "spec"] = some component)
      (isThere : component ≠ .null) : RefersTo entry component
  | text {text : String} {component : Value}
      (notGiven : (entry.under? ["componentRef", "spec"]).getD .null = .null)
      (given : entry.under? ["componentRef", "text"] = some (.str text))
      (isName : Text.isBlankText text = false) (read : Format.yaml.read text = .ok component) :
      RefersTo entry component

/-- A chain of tasks leads from a serialized component to the entry of the last one: every other
    task is in the component that the one before refers to. -/
inductive Value.LeadsTo : Value → List String → Value → Prop
  | last {v entry : Value} {id : String} (task : v.HasTask id entry) : LeadsTo v [id] entry
  | inner {v entry component last : Value} {id : String} {rest : List String}
      (task : v.HasTask id entry) (refers : entry.RefersTo component)
      (leads : LeadsTo component rest last) : LeadsTo v (id :: rest) last

/-- The entry of a task alone cannot be read, however many texts may lie one inside the other. -/
def Component.TaskFails (entry : Value) (raised : CompilationError) : Prop :=
  ∃ depth, ∀ deeper, depth ≤ deeper →
    Component.taskOf (Component.ofText deeper) entry = .error (.compilation raised)

/-! ### Where the loader fails -/

section Loader

variable {readText : String → Except Failure Component} {e : Failure}

/-- The field of an implementation fails as its value does, or at no task. -/
theorem walk_error {α : Type} {name : String} {walk : Value.Entries → Except Failure α}
    {found : Value → Except Failure α} {absent : Failure} (hnil : walk [] = .error absent)
    (hcons : ∀ key value rest, walk ((key, value) :: rest) =
      if key == .str name then found value else walk rest) {fields : Value.Entries}
    (h : walk fields = .error e) (habsent : absent.Unattributed) (howned : ¬ e.Unattributed) :
    ∃ v, Value.field? fields name = some v ∧ found v = .error e := by
  rw [walk_eq hnil hcons] at h
  cases hfield : Value.field? fields name with
  | none =>
    rw [hfield] at h
    obtain rfl := Except.error.inj h
    exact absurd habsent howned
  | some v =>
    rw [hfield] at h
    exact ⟨v, rfl, h⟩

/-- What is read from a mapping, wherever it stands, fails as the mapping does, or at no task. -/
theorem mapping_error {α : Type} {read : Value → Except Failure α}
    {body : Value.Entries → Except Failure α} {fault : Failure}
    (hread : ∀ v, read v = match v with
      | .map fields => body fields
      | .placed _ v => read v
      | .endless => .error .illTyped
      | _ => .error fault) {v : Value} (h : read v = .error e) (hfault : fault.Unattributed)
    (howned : ¬ e.Unattributed) : ∃ fields, v.bare = .map fields ∧ body fields = .error e := by
  -- Places of shared values are looked through, as they are when fields are read.
  induction v using Value.bare.induct with
  | case1 place v ih =>
    rw [hread] at h
    exact ih h
  | case2 v hbare =>
    rw [hread] at h
    cases v with
    | map fields => exact ⟨fields, rfl, h⟩
    | placed place inner => exact absurd rfl (hbare place inner)
    | endless =>
      obtain rfl := Except.error.inj h
      exact absurd (unattributed_accident _) howned
    | _ =>
      obtain rfl := Except.error.inj h
      exact absurd hfault howned

/-- A component fails as its implementation does. -/
theorem ofValueWith_error {v : Value} (h : Component.ofValueWith readText v = .error e)
    (howned : ¬ e.Unattributed) : ∃ found, v.under? ["implementation"] = some found ∧
      Component.implementationOf readText found = .error e := by
  obtain ⟨fields, hbare, h⟩ := mapping_error (fun v => by cases v <;> rfl) h
    (unattributed_ofSpec _) howned
  rw [under?_field hbare]
  -- The parts in the order in which they are read; all but the implementation have errors of their
  -- own.
  rcases bind_eq_error.mp h with h | ⟨implementation, -, h⟩
  · exact walk_error rfl (fun _ _ _ => by rw [Component.implementationField]) h
      (unattributed_ofSpec _) howned
  rcases bind_eq_error.mp h with h | ⟨inputs, -, h⟩
  · exact absurd (failsAs_inputs isOfLoader_unattributed (unless_unattributed _)
      (fun _ _ _ _ _ _ => unattributed_mappingOrEmpty _) e h) howned
  rcases bind_eq_error.mp h with h | ⟨outputs, -, h⟩
  · exact absurd (failsAs_outputs isOfLoader_unattributed
      (fun _ _ _ _ _ _ => unattributed_mappingOrEmpty _) e h) howned
  rcases bind_eq_error.mp h with h | ⟨metadata, -, h⟩
  · exact absurd (unattributed_mappingOrEmpty _ e h) howned
  · cases h

/-- An implementation fails as its graph does. -/
theorem implementationOf_error {v : Value} (h : Component.implementationOf readText v = .error e)
    (howned : ¬ e.Unattributed) : ∃ found, v.under? ["graph"] = some found ∧
      Component.graphOf readText found = .error e := by
  obtain ⟨fields, hbare, h⟩ := mapping_error (fun v => by cases v <;> rfl) h
    (unattributed_ofSpec _) howned
  rw [under?_field hbare]
  rw [Component.implementationOf] at h
  split at h
  next container _ => exact absurd ((failsAs_container isOfLoader_unattributed (v := container)
    (unless_unattributed _)).map _ e h) howned
  next =>
    obtain ⟨found, hfound, h⟩ := walk_error rfl (fun _ _ _ => by rw [Component.graphField]) h
      (failsAs_unsupportedImplementation isOfLoader_unattributed (unless_unattributed _)) howned
    exact ⟨found, hfound, map_eq_error.mp h⟩

/-- A graph fails as its tasks do. -/
theorem graphOf_error {v : Value} (h : Component.graphOf readText v = .error e)
    (howned : ¬ e.Unattributed) : ∃ found, v.under? ["tasks"] = some found ∧
      Component.tasksOf readText found = .error e := by
  obtain ⟨fields, hbare, h⟩ := mapping_error (fun v => by cases v <;> rfl) h
    (unattributed_ofSpec _) howned
  rw [under?_field hbare]
  rcases bind_eq_error.mp h with h | ⟨tasks, -, h⟩
  · exact walk_error rfl (fun _ _ _ => by rw [Component.tasksField]) h (unattributed_ofSpec _)
      howned
  rcases bind_eq_error.mp h with h | ⟨outputValues, -, h⟩
  · exact absurd (failsAs_outputValues isOfLoader_unattributed (unless_unattributed _)
      (unless_unattributed _) e h) howned
  · cases h

/-- A result for a task fails as the result does, and the failure is attributed to the task. -/
theorem underTask_error {α : Type} {key : Value} {result : Except Failure α}
    (h : underTask key result = .error e) (howned : ¬ e.Unattributed) :
    key.isShown ∧ ∃ e', result = .error e' ∧ e = e'.within key.text := by
  unfold underTask at h
  split at h
  next hshown =>
    refine ⟨hshown, ?_⟩
    cases result with
    | ok found => cases h
    | error e' => exact ⟨e', rfl, (Except.error.inj h).symm⟩
  -- A key that cannot be shown fails by accident, at no task.
  next =>
    exfalso
    split at h
    · obtain rfl := Except.error.inj h
      exact howned (unattributed_accident _)
    · obtain rfl := Except.error.inj h
      exact howned (unattributed_accident _)

/-- Tasks one after another fail as one of them does. -/
theorem taskEntries_error {entries : Value.Entries} {done : List (String × GraphTask)}
    (h : Component.taskEntries readText done entries = .error e) (howned : ¬ e.Unattributed) :
    ∃ key entry e', (key, entry) ∈ entries ∧ key.isShown ∧
      Component.taskOf readText entry = .error e' ∧ e = e'.within key.text := by
  induction entries generalizing done with
  | nil => cases h
  | cons entry rest ih =>
    obtain ⟨key, value⟩ := entry
    rw [Component.taskEntries] at h
    rcases bind_eq_error.mp h with h | ⟨found, -, h⟩
    · obtain ⟨hshown, e', hfailed, he⟩ := underTask_error h howned
      exact ⟨key, value, e', List.mem_cons_self, hshown, hfailed, he⟩
    · obtain ⟨key', entry', e', hmem, hrest⟩ := ih h
      exact ⟨key', entry', e', List.mem_cons_of_mem _ hmem, hrest⟩

/-- **Where a component fails** with an error that belongs to a task: the entry of the task
    fails. -/
theorem hasTask_of_error {v : Value} (h : Component.ofValueWith readText v = .error e)
    (howned : ¬ e.Unattributed) : ∃ id entry e', v.HasTask id entry ∧
      Component.taskOf readText entry = .error e' ∧ e = e'.within id := by
  obtain ⟨implementation, himplementation, h⟩ := ofValueWith_error h howned
  obtain ⟨graph, hgraph, h⟩ := implementationOf_error h howned
  obtain ⟨tasks, htasks, h⟩ := graphOf_error h howned
  obtain ⟨entries, hbare, h⟩ := mapping_error (fun v => by cases v <;> rfl) h
    (unattributed_ofSpec _) howned
  obtain ⟨key, entry, e', hmem, hshown, hfailed, he⟩ := taskEntries_error h howned
  refine ⟨key.text, entry, e',
    ⟨tasks, entries, key, ?_, hbare, hmem, hshown, rfl⟩, hfailed, he⟩
  rw [show ["implementation", "graph", "tasks"] = ["implementation"] ++ (["graph"] ++ ["tasks"])
    from rfl, under?_append, himplementation, Option.bind_some, under?_append, hgraph,
    Option.bind_some, htasks]

/-- A task fails as its reference does. -/
theorem taskOf_error {v : Value} (h : Component.taskOf readText v = .error e)
    (howned : ¬ e.Unattributed) : ∃ found, v.under? ["componentRef"] = some found ∧
      Component.referenceOf readText found = .error e := by
  obtain ⟨fields, hbare, h⟩ := mapping_error (fun v => by cases v <;> rfl) h
    (unattributed_ofSpec _) howned
  rw [under?_field hbare]
  rw [Component.taskOf] at h
  -- The parts of a task in order: only the reference can fail with an error of another task.
  split at h
  · obtain rfl := Except.error.inj h
    exact absurd (unattributed_ofSpec _) howned
  rcases bind_eq_error.mp h with h | ⟨given, -, h⟩
  · exact absurd (failsAs_namedEntries isOfLoader_unattributed _ _ e h) howned
  rcases bind_eq_error.mp h with h | ⟨reference, -, h⟩
  · exact walk_error rfl (fun _ _ _ => by rw [Component.referenceField]) h
      (unattributed_ofSpec _) howned
  rcases bind_eq_error.mp h with h | ⟨arguments, -, h⟩
  · exact absurd (failsAs_readEntries (failsAs_argument isOfLoader_unattributed)
      (fun _ _ => ⟨unless_unattributed _, unless_unattributed _⟩) e h) howned
  rcases bind_eq_error.mp h with h | ⟨annotations, -, h⟩
  · exact absurd (unattributed_mappingOrEmpty _ e h) howned
  · cases h

/-- The component that is given as a value fails. -/
theorem specField_error {fields : Value.Entries}
    (h : Component.specField readText fields = .error e) :
    ∃ component, Value.field? fields "spec" = some component ∧ component ≠ .null ∧
      Component.ofValueWith readText component = .error e := by
  rw [specField_eq] at h
  cases hfield : Value.field? fields "spec" with
  | none =>
    rw [hfield] at h
    cases h
  | some component =>
    rw [hfield, Option.elim_some] at h
    -- Nothing in the field means that there is no component, and that is no failure.
    split at h
    · cases h
    next hnull =>
      refine ⟨component, rfl, ?_, map_eq_error.mp h⟩
      rintro rfl
      exact hnull rfl

/-- No component is given as a value. -/
theorem specField_none {fields : Value.Entries}
    (h : Component.specField readText fields = .ok none) :
    (Value.field? fields "spec").getD .null = .null := by
  rw [specField_eq] at h
  cases hfield : Value.field? fields "spec" with
  | none => rfl
  | some component =>
    rw [hfield, Option.elim_some] at h
    split at h
    next hnull => exact eq_null hnull
    next =>
      obtain ⟨found, -, hfound⟩ := map_eq_ok.mp h
      cases hfound

/-- A reference fails as the component does that it holds, which is given as a value or else as
    text. -/
theorem referenceOf_error {v : Value} (h : Component.referenceOf readText v = .error e)
    (howned : ¬ e.Unattributed) :
    (∃ component, v.under? ["spec"] = some component ∧ component ≠ .null ∧
      Component.ofValueWith readText component = .error e) ∨
    ∃ text, (v.under? ["spec"]).getD .null = .null ∧ v.under? ["text"] = some (.str text) ∧
      Text.isBlankText text = false ∧ readText text = .error e := by
  obtain ⟨fields, hbare, h⟩ := mapping_error (fun v => by cases v <;> rfl) h
    (unattributed_ofSpec _) howned
  rw [under?_field hbare, under?_field hbare]
  rw [Component.referenceOf] at h
  -- The component that is given is read first, and the text only if there is none.
  rcases bind_eq_error.mp h with h | ⟨given, hgiven, h⟩
  · exact .inl (specField_error h)
  · split at h
    next => cases h
    next text hname =>
      obtain ⟨htext, hblank⟩ := nameOf?_eq_some hname
      rcases bind_eq_error.mp h with h | ⟨_, -, h⟩
      · exact .inr ⟨text, specField_none hgiven, field?_of_fieldOrNull htext, hblank,
          map_eq_error.mp h⟩
      · cases h
    next => cases h

/-- A component that is given as text fails as its value does. -/
theorem ofText_error {depth : Nat} {text : String} (h : Component.ofText depth text = .error e)
    (howned : ¬ e.Unattributed) : ∃ v inner, Format.yaml.read text = .ok v ∧
      Component.ofValueWith (Component.ofText inner) v = .error e := by
  cases depth with
  | zero =>
    obtain rfl := Except.error.inj h
    exact absurd (unattributed_accident _) howned
  | succ depth =>
    rw [Component.ofText] at h
    -- The text itself may have no value, and that error belongs to no task.
    cases hread : Format.yaml.read text with
    | ok v =>
      rw [hread] at h
      exact ⟨v, depth, rfl, h⟩
    | error fault =>
      rw [hread] at h
      obtain rfl := Except.error.inj h
      refine absurd ?_ howned
      cases fault with
      | malformedYaml => exact unattributed_ofSpec _
      | malformedJson | invalidValue | illTyped => exact unattributed_accident _

/-- The readers of texts that the loader has. -/
def IsReader (readText : String → Except Failure Component) : Prop :=
  ∀ text, ∃ depth, readText text = Component.ofText depth text

/-- What they read does not depend on the depth. -/
theorem IsReader.settles (h : IsReader readText) : ReadersSettle Component.ofText readText := by
  intro text
  obtain ⟨depth, hdepth⟩ := h text
  rw [hdepth]
  exact settles_ofText depth text

/-- **Where a task fails** with an error that belongs to a task within: the component fails that it
    refers to. -/
theorem refersTo_of_error (hreader : IsReader readText) {entry : Value}
    (h : Component.taskOf readText entry = .error e) (howned : ¬ e.Unattributed) :
    ∃ component inner, entry.RefersTo component ∧ IsReader inner ∧
      Component.ofValueWith inner component = .error e := by
  obtain ⟨reference, hreference, h⟩ := taskOf_error h howned
  -- A field of the reference is a field below `componentRef` of the task.
  have hunder : ∀ name, entry.under? ["componentRef", name] = reference.under? [name] := by
    intro name
    rw [show ["componentRef", name] = ["componentRef"] ++ [name] from rfl, under?_append,
      hreference, Option.bind_some]
  rcases referenceOf_error h howned with ⟨component, hspec, hnull, h⟩ |
    ⟨text, hnone, htext, hblank, h⟩
  · exact ⟨component, readText, .spec ((hunder _).trans hspec) hnull, hreader, h⟩
  -- In a text, the component is read with the reader for one level less.
  · obtain ⟨depth, hdepth⟩ := hreader text
    obtain ⟨component, inner, hread, h⟩ := ofText_error (hdepth ▸ h) howned
    have hnotGiven : (entry.under? ["componentRef", "spec"]).getD .null = .null := by
      rw [hunder]
      exact hnone
    exact ⟨component, Component.ofText inner,
      .text hnotGiven ((hunder _).trans htext) hblank hread, fun _ => ⟨inner, rfl⟩, h⟩

/-- A task that cannot be read with a reader cannot be read alone. -/
theorem taskFails_of_error (hreader : IsReader readText) {entry : Value} {raised : CompilationError}
    (h : Component.taskOf readText entry = .error (.compilation raised)) :
    Component.TaskFails entry raised := by
  rcases settles_taskOf hreader.settles entry with hnone | ⟨depth, hdepth⟩
  · rw [h] at hnone
    cases hnone
  · exact ⟨depth, fun deeper hle => (hdepth deeper hle).trans h⟩

/-- **Every error that belongs to a task** is one with which the entry of the task fails. -/
theorem ofValueWith_attributed (hreader : IsReader readText) {v : Value} {error : CompilationError}
    (h : Component.ofValueWith readText v = .error (.compilation error))
    (hpath : error.taskPath ≠ []) : ∃ entry, v.LeadsTo error.taskPath entry ∧
      Component.TaskFails entry { cause := error.cause } := by
  obtain ⟨cause, path⟩ := error
  -- the path gets shorter with every task, whether the component in it is a value or a text
  induction path generalizing readText v with
  | nil => exact absurd rfl hpath
  | cons id rest ih =>
    have howned : ∀ path ≠ [],
      ¬ (Failure.compilation { cause, taskPath := path }).Unattributed :=
      fun path hne h => hne (h _ rfl)
    obtain ⟨id', entry, e', htask, hfails, he⟩ := hasTask_of_error h (howned _ hpath)
    obtain ⟨inner, rfl, heq⟩ := Failure.eq_of_within he.symm
    obtain ⟨rfl, rfl⟩ := List.cons.inj heq
    by_cases hrest : rest = []
    · subst hrest
      exact ⟨entry, .last htask, taskFails_of_error hreader hfails⟩
    · obtain ⟨component, reader, hrefers, hinner, h⟩ :=
        refersTo_of_error hreader hfails (howned _ hrest)
      obtain ⟨last, hleads, hlast⟩ := ih hinner h hrest
      exact ⟨last, .inner htask hrefers hleads, hlast⟩

end Loader

/-- An error of the loader is attributed to a task: its path leads to the entry of the task, which
    alone cannot be read either, and it tells the same as the error with which that fails. -/
def Value.Attributed (v : Value) (e : CompilationError) : Prop :=
  ∃ entry raised, v.LeadsTo e.taskPath entry ∧ Component.TaskFails entry raised ∧
    raised.taskPath = [] ∧ e.Tells raised

/-- **Every error of the loader that belongs to a task is attributed** to it. -/
theorem ofValue_attributed {v : Value} {e : CompilationError}
    (h : Component.ofValue v = .error (.compilation e)) (hpath : e.taskPath ≠ []) :
    v.Attributed e := by
  obtain ⟨hparse, -⟩ | ⟨-, hdeep⟩ := withinCalls_eq_error.mp h
  case inr => cases hdeep
  obtain ⟨entry, hleads, hfails⟩ :=
    ofValueWith_attributed (fun text => ⟨text.length + 1, rfl⟩) hparse hpath
  exact ⟨entry, _, hleads, hfails, rfl, CompilationError.tells_of_cause rfl⟩

end PipelineCompiler
