import Mathlib
import PipelineCompiler.Component.Basic
import PipelineCompiler.Proofs.Component.Proper
import PipelineCompiler.Proofs.Component.Slips
import PipelineCompiler.Proofs.Yaml.Kept

namespace PipelineCompiler

/-!
# Entries of mappings that are loaded

Tasks, outputs of a graph, arguments and environments are loaded from mappings.  The keys of such a
mapping may be values of any kind, and the loader files what it reads under their texts.

* `Gathering` — a way to put together what has been read; the loader lets the last entry win;
* `GatheredFrom`, `Component.GatheredFrom` — a mapping, and all mappings of a component at any
  depth, are put together from the entries of the serialized one;
* `Value.Merges` — the texts of two keys are the same somewhere;
* `loading_gathers` — an entry is lost exactly where texts of keys are the same;
* `nullKeyFile_loses` — a file with null and its text as keys of an environment.
-/

/-! ### Putting entries together -/

/-- A way to put together what has been read under the texts of keys. -/
abbrev Gathering : Type 1 := (α : Type) → List (String × α) → Keyed α

/-- Every entry is there, in order. -/
def everyEntry : Gathering := fun _ read => read

/-- Of two entries with one text the last is there, at the place of the first. -/
def lastEntry : Gathering := fun _ read => Keyed.ofList read

/-- The texts of keys. -/
def keyTexts (entries : Value.Entries) : List String := entries.map fun entry => entry.1.text

/-- Entries are put together from those of a serialized mapping, each of which is read under the
    text of its key. -/
def GatheredFrom {α : Type} (gather : Gathering) (each : Value → α → Prop)
    (entries : Value.Entries) (kept : Keyed α) : Prop :=
  ∃ read, Keyed.keys read = keyTexts entries ∧
    List.Forall₂ (fun entry named => each entry.2 named.2) entries read ∧ kept = gather α read

/-- The entries of the mapping under a chain of fields, if there is one. -/
def Value.entriesAt (v : Value) (names : List String) : Value.Entries :=
  match (v.under? names).map Value.bare with
  | some (.map entries) => entries
  | _ => []

/-- The environment of a serialized component. -/
def Value.envEntries (v : Value) : Value.Entries :=
  v.entriesAt ["implementation", "container", "env"]

/-- The tasks of a serialized component. -/
def Value.taskEntries (v : Value) : Value.Entries :=
  v.entriesAt ["implementation", "graph", "tasks"]

/-- The outputs of the graph of a serialized component. -/
def Value.outputEntries (v : Value) : Value.Entries :=
  v.entriesAt ["implementation", "graph", "outputValues"]

/-- The arguments in the entry of a task. -/
def Value.argumentEntries (entry : Value) : Value.Entries := entry.entriesAt ["arguments"]

mutual

/-- All mappings of a component, at any depth, are put together from those of a serialized one. -/
inductive Component.GatheredFrom (gather : Gathering) : Value → Component → Prop
  | container {v : Value} {c : Component} {container : Container}
      (isContainer : c.implementation = .container container)
      (hasContainer : v.under? ["implementation", "container"] ≠ none)
      (env : PipelineCompiler.GatheredFrom gather (fun item p => Placeholder.parse item = .ok p)
        v.envEntries container.env) : Component.GatheredFrom gather v c
  | graph {v : Value} {c : Component} {g : Graph} {read : List (String × GraphTask)}
      (isGraph : c.implementation = .graph g)
      (noContainer : v.under? ["implementation", "container"] = none)
      (ids : Keyed.keys read = keyTexts v.taskEntries)
      (each : List.Forall₂ (fun entry named => GraphTask.GatheredFrom gather entry.2 named.2)
        v.taskEntries read)
      (tasks : g.tasks = gather GraphTask read)
      (outputs : PipelineCompiler.GatheredFrom gather
        (fun item source => Argument.parse item = .ok (.taskOutput source)) v.outputEntries
        g.outputValues) : Component.GatheredFrom gather v c

/-- The same for a task with its entry. -/
inductive GraphTask.GatheredFrom (gather : Gathering) : Value → GraphTask → Prop
  | unloaded {entry : Value} {task : GraphTask}
      (arguments : PipelineCompiler.GatheredFrom gather (fun item a => Argument.parse item = .ok a)
        entry.argumentEntries task.arguments)
      (isUnloaded : task.reference.spec = none) (refersNot : ∀ v, ¬ entry.RefersTo v) :
      GraphTask.GatheredFrom gather entry task
  | loaded {entry v : Value} {task : GraphTask} {c : Component}
      (arguments : PipelineCompiler.GatheredFrom gather (fun item a => Argument.parse item = .ok a)
        entry.argumentEntries task.arguments)
      (isLoaded : task.reference.spec = some c) (refers : entry.RefersTo v)
      (component : Component.GatheredFrom gather v c) : GraphTask.GatheredFrom gather entry task

end

/-- The texts of two keys are the same, somewhere in a serialized component. -/
inductive Value.Merges : Value → Prop
  | env {v : Value} (same : ¬ (keyTexts v.envEntries).Nodup) : Merges v
  | tasks {v : Value} (noContainer : v.under? ["implementation", "container"] = none)
      (same : ¬ (keyTexts v.taskEntries).Nodup) : Merges v
  | outputs {v : Value} (noContainer : v.under? ["implementation", "container"] = none)
      (same : ¬ (keyTexts v.outputEntries).Nodup) : Merges v
  | arguments {v key entry : Value} (noContainer : v.under? ["implementation", "container"] = none)
      (task : (key, entry) ∈ v.taskEntries) (same : ¬ (keyTexts entry.argumentEntries).Nodup) :
      Merges v
  | component {v key entry inner : Value}
      (noContainer : v.under? ["implementation", "container"] = none)
      (task : (key, entry) ∈ v.taskEntries) (refers : entry.RefersTo inner)
      (merges : Merges inner) : Merges v

/-! ### Keyed entries, one after another -/

section Gather

variable {α : Type}

/-- Entries with new keys are put behind those that are there. -/
theorem foldl_put {read : List (String × α)} {done : Keyed α}
    (h : (Keyed.keys done ++ Keyed.keys read).Nodup) :
    read.foldl (fun done entry => Keyed.put done entry.1 entry.2) done = done ++ read := by
  induction read generalizing done with
  | nil => exact (List.append_nil done).symm
  | cons entry rest ih =>
    obtain ⟨key, found⟩ := entry
    have hnew : key ∉ Keyed.keys done := fun hmem =>
      (List.nodup_append.mp h).2.2 key hmem key List.mem_cons_self rfl
    have hrest : (Keyed.keys (done ++ [(key, found)]) ++ Keyed.keys rest).Nodup := by
      rw [Keyed.keys_append, List.append_assoc]
      exact h
    rw [List.foldl_cons, Keyed.put_of_not_mem hnew, ih hrest, List.append_assoc]
    rfl

/-- **Entries with different keys are all there.** -/
theorem ofList_of_nodup {read : List (String × α)} (h : (Keyed.keys read).Nodup) :
    Keyed.ofList read = read := foldl_put h

/-- Entries that are put one after another are put together behind those that are there. -/
theorem read_of_foldlM {each : Value → α → Prop}
    {step : Keyed α → Value × Value → Except Failure (Keyed α)}
    (hstep : ∀ done entry next, step done entry = .ok next →
      ∃ a, each entry.2 a ∧ next = Keyed.put done entry.1.text a)
    {entries : Value.Entries} {done kept : Keyed α} (h : entries.foldlM step done = .ok kept) :
    ∃ read, Keyed.keys read = keyTexts entries ∧
      List.Forall₂ (fun entry named => each entry.2 named.2) entries read ∧
      kept = read.foldl (fun done entry => Keyed.put done entry.1 entry.2) done := by
  -- By induction on the entries; each is read first and put under its key afterwards.
  induction entries generalizing done with
  | nil => exact ⟨[], rfl, .nil, (pure_eq_ok.mp h).symm⟩
  | cons entry rest ih =>
    rw [List.foldlM_cons] at h
    obtain ⟨next, hnext, h⟩ := bind_eq_ok.mp h
    obtain ⟨a, ha, rfl⟩ := hstep _ _ _ hnext
    obtain ⟨read, hkeys, hread, rfl⟩ := ih h
    exact ⟨(entry.1.text, a) :: read, congrArg (entry.1.text :: ·) hkeys, .cons ha hread, rfl⟩

/-- **Entries that are put one after another** are put together so that the last one wins. -/
theorem gathered_of_foldlM {each : Value → α → Prop}
    {step : Keyed α → Value × Value → Except Failure (Keyed α)}
    (hstep : ∀ done entry next, step done entry = .ok next →
      ∃ a, each entry.2 a ∧ next = Keyed.put done entry.1.text a)
    {entries : Value.Entries} {kept : Keyed α} (h : entries.foldlM step [] = .ok kept) :
    GatheredFrom lastEntry each entries kept := read_of_foldlM hstep h

/-- The text of a key that can be shown. -/
theorem text_of_shownText {key : Value} {name : String} (h : key.shownText = .ok name) :
    name = key.text := by
  unfold Value.shownText at h
  split at h
  · exact (Except.ok.inj h).symm
  · cases h

/-- **Named entries** are put together from those of the mapping. -/
theorem gathered_readEntries {read : Value → Except Failure α} {entries : Value.Entries}
    {kept : Keyed α} (h : readEntries read entries = .ok kept) :
    GatheredFrom lastEntry (fun item a => read item = .ok a) entries kept :=
  gathered_of_foldlM (fun done entry next hok => by
    obtain ⟨name, hname, hok⟩ := bind_eq_ok.mp hok
    obtain ⟨a, ha, hok⟩ := bind_eq_ok.mp hok
    obtain rfl := text_of_shownText hname
    exact ⟨a, ha, (pure_eq_ok.mp hok).symm⟩) h

/-- What is put together from entries with different texts is what has been read. -/
theorem GatheredFrom.every {each : Value → α → Prop}
    {entries : Value.Entries} {kept : Keyed α}
    (h : GatheredFrom lastEntry each entries kept) (hdiffer : (keyTexts entries).Nodup) :
    GatheredFrom everyEntry each entries kept := by
  obtain ⟨read, hkeys, hread, rfl⟩ := h
  exact ⟨read, hkeys, hread, ofList_of_nodup (hkeys ▸ hdiffer)⟩

/-- Where every entry is there, the texts differ if the keys do. -/
theorem GatheredFrom.differ {each : Value → α → Prop}
    {entries : Value.Entries} {kept : Keyed α}
    (h : GatheredFrom everyEntry each entries kept) (hdiffer : (Keyed.keys kept).Nodup) :
    (keyTexts entries).Nodup := by
  obtain ⟨read, hkeys, -, rfl⟩ := h
  exact hkeys ▸ hdiffer

end Gather

/-! ### The mappings that the loader reads -/

/-- The entries under more fields. -/
theorem entriesAt_append {v found : Value} {names : List String} (h : v.under? names = some found)
    (others : List String) : v.entriesAt (names ++ others) = found.entriesAt others := by
  rw [Value.entriesAt, under?_append, h]
  rfl

/-- The entries of a mapping in a field. -/
theorem entriesAt_field {v : Value} {fields : Value.Entries} (hbare : v.bare = .map fields)
    (name : String) {entries : Value.Entries}
    (h : (Value.fieldOrNull fields name).bare = .map entries) : v.entriesAt [name] = entries := by
  rw [Value.entriesAt, under?_field hbare]
  rw [Value.fieldOrNull] at h
  cases hfield : Value.field? fields name with
  | none =>
    rw [hfield] at h
    cases h
  | some found =>
    rw [hfield, Option.getD_some] at h
    rw [Option.map_some, h]

/-- Whether a value is empty does not depend on where it stands. -/
theorem isTruthy_bare (v : Value) : v.bare.isTruthy = v.isTruthy := by
  induction v using Value.bare.induct with
  | case1 place v ih => exact ih
  | case2 v hbare =>
    cases v with
    | placed place inner => exact absurd rfl (hbare place inner)
    | _ => rfl

/-- A field that is empty in any way has no entries. -/
theorem entriesAt_falsy {v : Value} {fields : Value.Entries} (hbare : v.bare = .map fields)
    (name : String) (h : (Value.fieldOrNull fields name).isTruthy = false) :
    v.entriesAt [name] = [] := by
  -- An empty mapping has no entries, and what is no mapping has none either.
  cases hfound : (Value.fieldOrNull fields name).bare with
  | map entries =>
    have htruthy : (Value.map entries).isTruthy = false := by
      rw [← hfound, isTruthy_bare]
      exact h
    rw [entriesAt_field hbare name hfound]
    cases entries with
    | nil => rfl
    | cons entry rest => cases htruthy
  | _ =>
    rw [Value.entriesAt, under?_field hbare]
    rw [Value.fieldOrNull] at hfound
    cases hfield : Value.field? fields name with
    | none => rfl
    | some found =>
      rw [hfield, Option.getD_some] at hfound
      rw [Option.map_some, hfound]

/-- Named entries are those of the mapping in a field. -/
theorem entriesAt_named {v : Value} {fields : Value.Entries} (hbare : v.bare = .map fields)
    {what name : String} {entries : Value.Entries}
    (h : namedEntries what (Value.fieldOrNull fields name) = .ok entries) :
    v.entriesAt [name] = entries := by
  unfold namedEntries at h
  split at h
  · split at h
    next found hfound =>
      obtain rfl := Except.ok.inj h
      exact entriesAt_field hbare name hfound
    next => cases h
  next hfalsy =>
    obtain rfl := Except.ok.inj h
    exact entriesAt_falsy hbare name (Bool.eq_false_iff.mpr hfalsy)

/-- **The environment of a container** is put together from its mapping. -/
theorem gathered_container {v : Value} {container : Container}
    (h : Container.ofValue v = .ok container) :
    GatheredFrom lastEntry (fun item p => Placeholder.parse item = .ok p) (v.entriesAt ["env"])
      container.env := by
  unfold Container.ofValue at h
  split at h
  case h_2 => cases h
  next fields hbare =>
    split at h
    case h_2 => cases h
    obtain ⟨entries, hentries, h⟩ := bind_eq_ok.mp h
    obtain ⟨command, -, h⟩ := bind_eq_ok.mp h
    obtain ⟨args, -, h⟩ := bind_eq_ok.mp h
    obtain ⟨env, henv, h⟩ := bind_eq_ok.mp h
    obtain rfl := pure_eq_ok.mp h
    rw [entriesAt_named hbare hentries]
    exact gathered_readEntries henv

/-- **The outputs of a graph** are put together from their mapping. -/
theorem gathered_outputs {v : Value} {fields : Value.Entries} (hbare : v.bare = .map fields)
    {outputs : List (String × TaskOutput)}
    (h : outputValuesOf (Value.fieldOrNull fields "outputValues") = .ok outputs) :
    GatheredFrom lastEntry (fun item source => Argument.parse item = .ok (.taskOutput source))
      (v.entriesAt ["outputValues"]) outputs := by
  unfold outputValuesOf at h
  split at h
  case isFalse hfalsy =>
    obtain rfl := pure_eq_ok.mp h
    rw [entriesAt_falsy hbare _ (Bool.eq_false_iff.mpr hfalsy)]
    exact ⟨[], rfl, .nil, rfl⟩
  split at h
  case h_2 => cases h
  next entries hentries =>
    rw [entriesAt_field hbare _ hentries]
    refine gathered_of_foldlM (fun done entry next hok => ?_) h
    obtain ⟨argument, hargument, hok⟩ := bind_eq_ok.mp hok
    obtain ⟨name, hname, hok⟩ := bind_eq_ok.mp hok
    obtain rfl := text_of_shownText hname
    -- Only outputs of tasks are accepted as outputs of a graph.
    cases argument with
    | literal | graphInput => cases hok
    | taskOutput source => exact ⟨source, hargument, (pure_eq_ok.mp hok).symm⟩

section Loader

variable {readText : String → Except Failure Component}

/-- A task is under the text of its key. -/
theorem entry_of_underTask {key : Value} {result : Except Failure GraphTask} {id : String}
    {task : GraphTask} (h : underTask key result = .ok (id, task)) : id = key.text := by
  unfold underTask at h
  split at h
  next =>
    obtain ⟨found, -, hfound⟩ := map_eq_ok.mp h
    exact (Prod.mk.inj hfound).1.symm
  next => split at h <;> cases h

/-- Tasks are put one after another. -/
theorem taskEntries_eq (entries : Value.Entries) (done : List (String × GraphTask)) :
    Component.taskEntries readText done entries = entries.foldlM (fun done entry => do
      let (id, task) ← underTask entry.1 (Component.taskOf readText entry.2)
      pure (Keyed.put done id task)) done := by
  induction entries generalizing done with
  | nil => rfl
  | cons entry rest ih =>
    obtain ⟨key, value⟩ := entry
    rw [Component.taskEntries, List.foldlM_cons]
    cases underTask key (Component.taskOf readText value) with
    | error e => rfl
    | ok found => exact ih (Keyed.put done found.1 found.2)

/-- **The tasks and outputs of a graph** are put together from their mappings. -/
theorem gathered_graph {v : Value} {g : Graph} (h : Component.graphOf readText v = .ok g) :
    GatheredFrom lastEntry (fun item task => Component.taskOf readText item = .ok task)
      (v.entriesAt ["tasks"]) g.tasks ∧
    GatheredFrom lastEntry (fun item source => Argument.parse item = .ok (.taskOutput source))
      (v.entriesAt ["outputValues"]) g.outputValues := by
  rw [graphOf_eq] at h
  obtain ⟨fields, hbare, h⟩ := readMapping_eq_ok.mp h
  obtain ⟨tasks, htasks, h⟩ := bind_eq_ok.mp h
  obtain ⟨outputs, houtputs, h⟩ := bind_eq_ok.mp h
  obtain rfl := pure_eq_ok.mp h
  refine ⟨?_, gathered_outputs hbare houtputs⟩
  rw [tasksField_eq] at htasks
  -- Without tasks there is nothing to gather, since that is a fault.
  cases hfield : Value.field? fields "tasks" with
  | none =>
    rw [hfield] at htasks
    cases htasks
  | some found =>
    rw [hfield, Option.elim_some, tasksOf_eq] at htasks
    obtain ⟨entries, hentries, htasks⟩ := readMapping_eq_ok.mp htasks
    rw [Value.entriesAt, under?_field hbare, hfield, Option.map_some, hentries]
    rw [taskEntries_eq] at htasks
    refine gathered_of_foldlM (fun done entry next hok => ?_) htasks
    obtain ⟨⟨id, task⟩, htask, hok⟩ := bind_eq_ok.mp hok
    obtain rfl := entry_of_underTask htask
    exact ⟨task, underTask_eq_ok htask, (pure_eq_ok.mp hok).symm⟩

/-- **The arguments of a task** are put together from their mapping. -/
theorem gathered_arguments {v : Value} {task : GraphTask}
    (h : Component.taskOf readText v = .ok task) :
    GatheredFrom lastEntry (fun item a => Argument.parse item = .ok a) v.argumentEntries
      task.arguments := by
  rw [taskOf_eq] at h
  obtain ⟨fields, hbare, h⟩ := readMapping_eq_ok.mp h
  dsimp only at h
  split at h
  next => cases h
  next =>
    obtain ⟨entries, hentries, h⟩ := bind_eq_ok.mp h
    obtain ⟨reference, -, h⟩ := bind_eq_ok.mp h
    obtain ⟨arguments, harguments, h⟩ := bind_eq_ok.mp h
    obtain ⟨annotations, -, h⟩ := bind_eq_ok.mp h
    obtain rfl := pure_eq_ok.mp h
    rw [Value.argumentEntries, entriesAt_named hbare hentries]
    exact gathered_readEntries harguments

/-- What a reader of texts finds in a text is put together from the value of the text. -/
def GathersTexts (readText : String → Except Failure Component) : Prop :=
  ∀ text c, readText text = .ok c →
    ∃ v, Format.yaml.read text = .ok v ∧ c.GatheredFrom lastEntry v

/-- The component of a reference is read from the value that is given, or else from the text. -/
theorem component_of_reference {v : Value} {reference : ComponentReference} {c : Component}
    (h : Component.referenceOf readText v = .ok reference) (hspec : reference.spec = some c) :
    (∃ given, v.under? ["spec"] = some given ∧ given ≠ .null ∧
      Component.ofValueWith readText given = .ok c) ∨
    ∃ text, (v.under? ["spec"]).getD .null = .null ∧ v.under? ["text"] = some (.str text) ∧
      Text.isBlankText text = false ∧ readText text = .ok c := by
  rw [referenceOf_eq] at h
  obtain ⟨fields, hbare, h⟩ := readMapping_eq_ok.mp h
  obtain ⟨given, hgiven, h⟩ := bind_eq_ok.mp h
  rw [under?_field hbare, under?_field hbare]
  dsimp only at h
  -- A component that is given counts, and the text is only looked at when none is.
  split at h
  next =>
    obtain rfl := pure_eq_ok.mp h
    obtain rfl := Option.some.inj hspec
    rw [specField_eq] at hgiven
    cases hfield : Value.field? fields "spec" with
    | none =>
      rw [hfield] at hgiven
      cases hgiven
    | some found =>
      rw [hfield, Option.elim_some] at hgiven
      split at hgiven
      next => cases hgiven
      next hnull =>
        obtain ⟨_, hread, heq⟩ := map_eq_ok.mp hgiven
        obtain rfl := Option.some.inj heq
        exact .inl ⟨found, rfl, by rintro rfl; exact hnull rfl, hread⟩
  next text hname =>
    obtain ⟨htext, hblank⟩ := nameOf?_eq_some hname
    obtain ⟨_, hmap, h⟩ := bind_eq_ok.mp h
    obtain ⟨read, hread, rfl⟩ := map_eq_ok.mp hmap
    obtain rfl := pure_eq_ok.mp h
    obtain rfl := Option.some.inj hspec
    exact .inr ⟨text, specField_none hgiven, field?_of_fieldOrNull htext, hblank, hread⟩
  next =>
    obtain rfl := pure_eq_ok.mp h
    cases hspec

/-- **The component of a task** is read from what its entry refers to. -/
theorem component_of_task {entry : Value} {task : GraphTask} {c : Component}
    (h : Component.taskOf readText entry = .ok task) (hspec : task.reference.spec = some c) :
    (∃ v, entry.RefersTo v ∧ entry.under? ["componentRef", "spec"] = some v ∧
      Component.ofValueWith readText v = .ok c) ∨
    ∃ text, entry.RefersToText text ∧ readText text = .ok c := by
  obtain ⟨-, found, hfound, hreference⟩ := task_read h
  have hunder : ∀ name, entry.under? ["componentRef", name] = found.under? [name] := by
    intro name
    rw [show ["componentRef", name] = ["componentRef"] ++ [name] from rfl, under?_append, hfound,
      Option.bind_some]
  -- The component stands there as a value, or in a text that is read.
  obtain ⟨v, hv, hnull, hread⟩ | ⟨text, hnone, htext, hblank, hread⟩ :=
    component_of_reference hreference hspec
  · have hgiven := (hunder "spec").trans hv
    exact .inl ⟨v, .spec hgiven hnull, hgiven, hread⟩
  · exact .inr ⟨text, ⟨by rw [hunder]; exact hnone, (hunder _).trans htext, hblank⟩, hread⟩

/-- A reference without a component gives none, neither as a value nor as text. -/
theorem refersNot_of_unloaded {entry : Value} {task : GraphTask}
    (h : Component.taskOf readText entry = .ok task) (hspec : task.reference.spec = none)
    (v : Value) : ¬ entry.RefersTo v := by
  obtain ⟨-, found, hfound, hreference⟩ := task_read h
  have hunder : ∀ name, entry.under? ["componentRef", name] = found.under? [name] := by
    intro name
    rw [show ["componentRef", name] = ["componentRef"] ++ [name] from rfl, under?_append, hfound,
      Option.bind_some]
  rw [referenceOf_eq] at hreference
  obtain ⟨fields, hbare, hreference⟩ := readMapping_eq_ok.mp hreference
  obtain ⟨given, hgiven, hreference⟩ := bind_eq_ok.mp hreference
  have hnone : given = none ∧ nameOf? (Value.fieldOrNull fields "text") = none := by
    dsimp only at hreference
    split at hreference
    next =>
      rw [← pure_eq_ok.mp hreference] at hspec
      cases hspec
    next =>
      obtain ⟨_, hmap, hreference⟩ := bind_eq_ok.mp hreference
      obtain ⟨read, -, rfl⟩ := map_eq_ok.mp hmap
      rw [← pure_eq_ok.mp hreference] at hspec
      cases hspec
    next hname => exact ⟨rfl, hname⟩
  obtain ⟨rfl, hname⟩ := hnone
  intro hrefers
  -- Whatever the reference would lead to is refuted: nothing is given, and there is no text.
  cases hrefers with
  | spec isGiven isThere =>
    rw [hunder, under?_field hbare] at isGiven
    have hnull := specField_none hgiven
    rw [isGiven] at hnull
    exact isThere hnull
  | text _ isGiven isName _ =>
    rw [hunder, under?_field hbare] at isGiven
    rw [Value.fieldOrNull, isGiven, Option.getD_some, nameOf?, isName] at hname
    cases hname

/-- The container goes before the graph. -/
theorem noContainer_of_graph {v : Value} {c : Component} {g : Graph}
    (h : Component.ofValueWith readText v = .ok c) (hg : c.implementation = .graph g) :
    v.under? ["implementation", "container"] = none := by
  rw [ofValueWith_eq] at h
  obtain ⟨fields, hbare, h⟩ := readMapping_eq_ok.mp h
  obtain ⟨implementation, himpl, h⟩ := bind_eq_ok.mp h
  obtain ⟨inputs, -, h⟩ := bind_eq_ok.mp h
  obtain ⟨outputs, -, h⟩ := bind_eq_ok.mp h
  obtain ⟨metadata, -, h⟩ := bind_eq_ok.mp h
  obtain rfl := pure_eq_ok.mp h
  obtain rfl : implementation = .graph g := hg
  rw [implementationField_eq] at himpl
  -- The loader looks at the graph only if there is no container.
  cases hfield : Value.field? fields "implementation" with
  | none =>
    rw [hfield] at himpl
    cases himpl
  | some found =>
    rw [hfield, Option.elim_some, implementationOf_eq] at himpl
    obtain ⟨parts, hparts, himpl⟩ := readMapping_eq_ok.mp himpl
    split at himpl
    next =>
      obtain ⟨container, -, heq⟩ := map_eq_ok.mp himpl
      cases heq
    next hnone =>
      rw [show ["implementation", "container"] = ["implementation"] ++ ["container"] from rfl,
        under?_append, under?_field hbare, hfield, Option.bind_some, under?_field hparts]
      exact hnone

/-- An entry is smaller than the value in which it lies. -/
theorem sizeOf_lt_of_entriesAt {v key item : Value} {names : List String}
    (h : (key, item) ∈ v.entriesAt names) : sizeOf item < sizeOf v := by
  rw [Value.entriesAt] at h
  cases hunder : v.under? names with
  | none =>
    rw [hunder] at h
    cases h
  | some found =>
    rw [hunder, Option.map_some] at h
    cases hbare : found.bare with
    | map entries =>
      rw [hbare] at h
      exact Nat.lt_of_lt_of_le (sizeOf_lt_of_mem hbare h) (sizeOf_under?_le hunder)
    | _ =>
      rw [hbare] at h
      cases h

/-- A relation between the items of two lists may be replaced item by item. -/
theorem forall₂_imp_of_mem {α β : Type} {R S : α → β → Prop} {xs : List α} {ys : List β}
    (h : List.Forall₂ R xs ys) (himp : ∀ x ∈ xs, ∀ y ∈ ys, R x y → S x y) :
    List.Forall₂ S xs ys := by
  induction h with
  | nil => exact .nil
  | cons hxy _ ih =>
    refine .cons (himp _ List.mem_cons_self _ List.mem_cons_self hxy) (ih fun x hx y hy => ?_)
    exact himp x (List.mem_cons_of_mem _ hx) y (List.mem_cons_of_mem _ hy)

/-- **Whatever is read is put together** from the mappings of the value, at any depth, if that holds
    of the texts in it.  The induction is on the size of the value. -/
theorem gathered_ofValueWith (htexts : GathersTexts readText) (v : Value) (c : Component)
    (h : Component.ofValueWith readText v = .ok c) : c.GatheredFrom lastEntry v := by
  obtain ⟨found, container, hunder, hread, himpl⟩ | ⟨found, g, hunder, hg, himpl⟩ :=
    implementation_read h
  · refine .container himpl (fun hnone => nomatch hunder.symm.trans hnone) ?_
    rw [Value.envEntries, show ["implementation", "container", "env"] =
      ["implementation", "container"] ++ ["env"] from rfl, entriesAt_append hunder]
    exact gathered_container hread
  have hentries : ∀ name, v.entriesAt ["implementation", "graph", name] =
    found.entriesAt [name] :=
    fun name => entriesAt_append hunder [name]
  obtain ⟨⟨read, hkeys, heach, htasks⟩, houtputs⟩ := gathered_graph hg
  rw [← hentries] at hkeys heach houtputs
  refine .graph himpl (noContainer_of_graph h himpl) hkeys ?_ htasks houtputs
  refine forall₂_imp_of_mem heach fun entry hentry named _ htask => ?_
  have harguments := gathered_arguments htask
  -- The component of a task is a smaller value, or it was read from a text, of which the law is
  -- assumed.
  cases hspec : named.2.reference.spec with
  | none => exact .unloaded harguments hspec (refersNot_of_unloaded htask hspec)
  | some inner =>
    obtain ⟨w, hrefers, hgiven, hread⟩ | ⟨text, hrefers, hread⟩ :=
      component_of_task htask hspec
    · have hsmaller : sizeOf w < sizeOf v := calc
        sizeOf w ≤ sizeOf entry.2 := sizeOf_under?_le hgiven
        _ < sizeOf v := sizeOf_lt_of_entriesAt hentry
      exact .loaded harguments hspec hrefers (gathered_ofValueWith htexts w inner hread)
    · obtain ⟨w, hw, hgathered⟩ := htexts text inner hread
      exact .loaded harguments hspec (.text hrefers.notGiven hrefers.given hrefers.isName hw)
        hgathered
termination_by sizeOf v

end Loader

/-- **Whatever is loaded is put together** from the mappings of the value and of the texts in it. -/
theorem gathered_parse {v : Value} {c : Component} (h : Component.parse v = .ok c) :
    c.GatheredFrom lastEntry v := by
  have htexts : ∀ depth, GathersTexts (Component.ofText depth) := by
    intro depth
    induction depth with
    | zero => exact fun text c h => nomatch h
    | succ depth ih =>
      intro text c h
      obtain ⟨v, hv, h⟩ := bind_eq_ok.mp h
      exact ⟨v, mapError_eq_ok hv, gathered_ofValueWith ih v c h⟩
  exact gathered_ofValueWith (fun text c h => htexts _ text c h) v c h

/-! ### Entries that are lost -/

/-- An entry refers to one component. -/
theorem Value.RefersTo.unique {entry v w : Value} (hv : entry.RefersTo v) (hw : entry.RefersTo w) :
    v = w := by
  -- A value that is there comes before a text, so both references are of one kind.
  cases hv with
  | spec given isThere =>
    cases hw with
    | spec given' => exact Option.some.inj (given.symm.trans given')
    | text notGiven =>
      rw [given] at notGiven
      exact absurd notGiven isThere
  | text notGiven given _ read =>
    cases hw with
    | spec given' isThere =>
      rw [given'] at notGiven
      exact absurd notGiven isThere
    | text _ given' _ read' =>
      obtain rfl := Value.str.inj (Option.some.inj (given.symm.trans given'))
      exact Except.ok.inj (read.symm.trans read')

/-- The arguments of a task are put together from those of its entry. -/
theorem GraphTask.GatheredFrom.arguments {gather : Gathering} {entry : Value} {task : GraphTask}
    (h : task.GatheredFrom gather entry) :
    PipelineCompiler.GatheredFrom gather (fun item a => Argument.parse item = .ok a)
      entry.argumentEntries task.arguments := by
  cases h with
  | unloaded harguments => exact harguments
  | loaded harguments => exact harguments

/-- Without a container there is no environment. -/
theorem envEntries_of_noContainer {v : Value}
    (h : v.under? ["implementation", "container"] = none) : v.envEntries = [] := by
  rw [Value.envEntries, Value.entriesAt, show ["implementation", "container", "env"] =
    ["implementation", "container"] ++ ["env"] from rfl, under?_append, h]
  rfl

/-- **Where texts of keys are the same, not every entry is there.** -/
theorem Value.Merges.loses {v : Value} (hmerges : v.Merges) {c : Component}
    (hproper : c.Throughout Component.IsProper) : ¬ c.GatheredFrom everyEntry v := by
  -- By induction on where the texts of two keys meet.  At that place not all entries can be told
  -- apart, while the names of a proper component differ.
  induction hmerges generalizing c with
  | env same =>
    intro h
    cases h with
    | container himpl _ henv => exact same (henv.differ (hproper.self.container _ himpl).envKeys)
    | graph _ hnone =>
      rw [envEntries_of_noContainer hnone] at same
      exact same List.nodup_nil
  | tasks noContainer same =>
    intro h
    cases h with
    | container _ hgiven => exact hgiven noContainer
    | graph himpl _ hkeys _ htasks =>
      have hdiffer := (hproper.self.graph _ himpl).taskKeys
      rw [htasks] at hdiffer
      exact same (hkeys ▸ hdiffer)
  | outputs noContainer same =>
    intro h
    cases h with
    | container _ hgiven => exact hgiven noContainer
    | graph himpl _ _ _ _ houtputs =>
      exact same (houtputs.differ (hproper.self.graph _ himpl).outputKeys)
  | arguments noContainer task same =>
    intro h
    cases h with
    | container _ hgiven => exact hgiven noContainer
    | graph himpl _ _ heach htasks _ =>
      obtain ⟨named, hnamed, hgathered⟩ := exists_right_of_mem heach task
      have htask := (hproper.self.graph _ himpl).tasks named (htasks ▸ hnamed)
      exact same (hgathered.arguments.differ htask.argumentKeys)
  | component noContainer task refers _ ih =>
    intro h
    cases h with
    | container _ hgiven => exact hgiven noContainer
    | graph himpl _ _ heach htasks _ =>
      obtain ⟨named, hnamed, hgathered⟩ := exists_right_of_mem heach task
      cases hgathered with
      | unloaded _ _ hrefersNot => exact hrefersNot _ refers
      | loaded _ hspec hrefers hinner =>
        obtain rfl := hrefers.unique refers
        cases hproper with
        | intro _ inner => exact ih (inner _ himpl named (htasks ▸ hnamed) _ hspec) hinner

/-- **Where the texts of keys differ, every entry is there.**  The induction is on the component,
    whose tasks are those that were read. -/
theorem Component.GatheredFrom.every {v : Value} {c : Component} (h : c.GatheredFrom lastEntry v)
    (hdiffer : ¬ v.Merges) : c.GatheredFrom everyEntry v := by
  induction c using Component.nesting generalizing v with
  | container c k himpl =>
    cases h with
    | container himpl hgiven henv =>
      exact .container himpl hgiven (henv.every (not_not.mp fun same => hdiffer (.env same)))
    | graph himpl' => cases himpl.symm.trans himpl'
  | graph c g himpl ih =>
    cases h with
    | container himpl' => cases himpl.symm.trans himpl'
    -- Different texts of keys make the last entry of each key the only one.
    | @graph _ _ g' read himpl' hnone hkeys heach htasks houtputs =>
      obtain rfl := Implementation.graph.inj (himpl.symm.trans himpl')
      have htexts : (keyTexts v.taskEntries).Nodup :=
        not_not.mp fun same => hdiffer (.tasks hnone same)
      have hall : g.tasks = read := htasks.trans (ofList_of_nodup (hkeys ▸ htexts))
      refine .graph himpl hnone hkeys ?_ hall
        (houtputs.every (not_not.mp fun same => hdiffer (.outputs hnone same)))
      refine forall₂_imp_of_mem heach fun entry hentry named hnamed htask => ?_
      have hsame : (keyTexts entry.2.argumentEntries).Nodup :=
        not_not.mp fun same => hdiffer (.arguments hnone hentry same)
      cases htask with
      | unloaded harguments hspec hrefersNot =>
        exact .unloaded (harguments.every hsame) hspec hrefersNot
      | loaded harguments hspec hrefers hinner =>
        refine .loaded (harguments.every hsame) hspec hrefers ?_
        exact ih named (hall ▸ hnamed) _ hspec hinner
          fun hmerges => hdiffer (.component hnone hentry hrefers hmerges)

/-- **Of entries whose keys have one text the last is loaded**, at the place of the first; no other
    entry is lost.  That goes for the tasks and outputs of every graph, for the arguments of every
    task and for the environment of every container, at any depth. -/
theorem loading_gathers {file : SourceFile} {c : Component} (h : Component.ofFile file = .ok c) :
    ∃ v, Component.valueOfFile file = .ok v ∧ c.GatheredFrom lastEntry v ∧
      (c.GatheredFrom everyEntry v ↔ ¬ v.Merges) := by
  unfold Component.ofFile Component.ofFileWithin at h
  split at h
  · cases h
  obtain ⟨v, hv, h⟩ := bind_eq_ok.mp h
  obtain ⟨hparse, -⟩ := withinCalls_eq_ok.mp h
  have hgathered := gathered_parse hparse
  have hproper : c.Throughout Component.IsProper :=
    throughout_parse (fun _ _ _ => isProper_of_read) hparse
  exact ⟨v, hv, hgathered, fun hevery hmerges => hmerges.loses hproper hevery, hgathered.every⟩

/-! ### Null and its text -/

/-- The value of an environment with the keys `null` and `'None'`. -/
def nullKey : Value :=
  .ofFields [("implementation", .ofFields [("container", .ofFields [("image", .str "a"),
    ("env", .map [(.null, .str "b"), (.str "None", .str "c")])])])]

/-- The same component as YAML. -/
def nullKeyText : String :=
  "implementation:\n  container:\n    image: a\n    env:\n      null: b\n      'None': c\n"

/-- The file with that text. -/
def nullKeyFile : SourceFile := ⟨"c.yaml", .file nullKeyText.toUTF8.data.toList⟩

/-- What is loaded: only the second of the two entries. -/
def nullKeyContainer : Component :=
  { implementation := .container { image := "a", env := [("None", .literal "c")] }
    name := .null, description := .null, inputs := [], outputs := [], metadata := [] }

open Yaml Token in
/-- The tokens of the text. -/
def nullKeyTokens : List Token :=
  [ mappingOpen, key, scalar "implementation" true, value,
    mappingOpen, key, scalar "container" true, value,
    mappingOpen, key, scalar "image" true, value, scalar "a" true,
    key, scalar "env" true, value,
    mappingOpen, key, scalar "null" true, value, scalar "b" true,
    key, scalar "None" false, value, scalar "c" true,
    blockClose, blockClose, blockClose, blockClose, streamEnd ]

/-- The nodes of the text. -/
def nullKeyNodes : Yaml.Nodes :=
  #[ ⟨.map, .mapping [(1, 2)]⟩, ⟨.str, .scalar "implementation"⟩,
     ⟨.map, .mapping [(3, 4)]⟩, ⟨.str, .scalar "container"⟩,
     ⟨.map, .mapping [(5, 6), (7, 8)]⟩, ⟨.str, .scalar "image"⟩, ⟨.str, .scalar "a"⟩,
     ⟨.str, .scalar "env"⟩, ⟨.map, .mapping [(9, 10), (11, 12)]⟩,
     ⟨.null, .scalar "null"⟩, ⟨.str, .scalar "b"⟩, ⟨.str, .scalar "None"⟩,
       ⟨.str, .scalar "c"⟩ ]

section Scan

open Yaml Yaml.Stage Yaml.Token

/-- The words of the text stand without quotes, on one line. -/
theorem nullKey_word {word : String}
    (h : word ∈ ["implementation", "container", "image", "a", "env", "null", "b", "c"]) :
    Written 2 word true word.toList ∧ (∀ c ∈ word.toList, IsInline c) ∧
      word.toList.length ≤ Lexer.keyReach := by
  have hplain : Scalar.allowsPlain word.toList = true ∧ word.toList ≠ [] ∧
      word.toList.length ≤ 14 := by
    simp only [List.mem_cons, List.not_mem_nil, or_false] at h
    rcases h with rfl | rfl | rfl | rfl | rfl | rfl | rfl | rfl
    all_goals
      exact ⟨Scalar.allowsPlain_cons (by decide) (by decide) (by decide) (by decide), by decide,
        by decide⟩
  obtain ⟨hallows, hne, hlength⟩ := hplain
  exact ⟨.plain hallows hne, fun c hc => (Scalar.words_of_allowsPlain hallows).isInline hc,
    hlength.trans (by rw [Lexer.keyReach]; omega)⟩

/-- The text of null stands between quotes. -/
theorem nullKey_quoted :
    Written 2 "None" false ('\x27' :: (Scalar.singleChars 2 false "None".toList ++ ['\x27'])) :=
  .single (Scalar.fits_of_allowsSingle (by decide) (by decide))

/-- The text is cut into its tokens. -/
theorem scan_nullKey : Token.scan nullKeyText = nullKeyTokens := by
  have hallowed : nullKeyText.toList.all isAllowed = true := by decide
  have htext : nullKeyText.toList =
      "implementation".toList ++ ':' :: '\n' :: (List.replicate 2 ' ' ++
      ("container".toList ++ ':' :: '\n' :: (List.replicate 4 ' ' ++
      ("image".toList ++ ':' :: ' ' :: ("a".toList ++ '\n' :: (List.replicate 4 ' ' ++
      ("env".toList ++ ':' :: '\n' :: (List.replicate 6 ' ' ++
      ("null".toList ++ ':' :: ' ' :: ("b".toList ++ '\n' :: (List.replicate 6 ' ' ++
      (('\x27' :: (Scalar.singleChars 2 false "None".toList ++ ['\x27'])) ++ ':' :: ' ' ::
        ("c".toList ++ '\n' :: (List.replicate 0 ' ' ++ [])))))))))))))) := by decide
  -- a word begins a mapping that is deeper than the one around it, or stands behind something
  have hkey : ∀ {word : String} {rest : List Char} {column : Nat} {tokens : List Token}
      {i : Int} {blocks : List Int} {x : Char},
      word ∈ ["implementation", "container", "image", "a", "env", "null", "b", "c"] →
      x = ' ' ∨ x = '\n' → i < (column : Int) →
      Goes ⟨word.toList ++ ':' :: x :: rest, column, tokens, i :: blocks, true⟩
        ⟨x :: rest, column + (word.toList.length + 1),
          tokens ++ [mappingOpen, key, scalar word true, value], column :: i :: blocks, false⟩ :=
    fun hword hx hi =>
      have ⟨hwritten, hinline, hreach⟩ := nullKey_word hword
      goes_key_first hwritten (by decide) hinline hreach hx hi
  have hnext : ∀ {word : String} {tail : List Char},
      word ∈ ["implementation", "container", "image", "a", "env", "null", "b", "c"] →
      EndsScalar tail → NextLine (word.toList ++ tail) :=
    fun hword htail => (nullKey_word hword).1.follows htail
  have hinline : ∀ c ∈ "None".toList, isWrittenBreak c = false := fun c hc =>
    Bool.eq_false_iff.mpr
      (List.any_eq_false.mp (by decide : "None".toList.any isWrittenBreak = false) c hc)
  have hend : NextLine [] := ⟨fun _ hx => (Option.not_mem_none _ hx).elim, fun _ _ => nofun⟩
  have hgoes : Goes ⟨nullKeyText.toList, 0, [], [-1], true⟩
      ⟨[], 0, nullKeyTokens.dropLast.dropLast, [0, -1], true⟩ := by
    rw [htext]
    refine (hkey (by simp) (.inr rfl) (by decide)).trans ?_
    refine (goes_line (hnext (by simp) ⟨_, _, rfl, .inr rfl⟩).solid).trans ?_
    refine (hkey (by simp) (.inr rfl) (by decide)).trans ?_
    refine (goes_line (hnext (by simp) ⟨_, _, rfl, .inr rfl⟩).solid).trans ?_
    -- the image
    refine (hkey (by simp) (.inl rfl) (by decide)).trans ?_
    refine (goes_space (hnext (by simp) ⟨_, _, rfl, .inl rfl⟩).solid).trans ?_
    refine (goes_scalar (nullKey_word (by simp)).1 (by decide)
      (hnext (by simp) ⟨_, _, rfl, .inr rfl⟩) (by decide) (by decide)).trans ?_
    -- the environment
    refine (goes_key_next (nullKey_word (by simp)).1 (by decide) (nullKey_word (by simp)).2.1
      (nullKey_word (by simp)).2.2 (.inr rfl)).trans ?_
    refine (goes_line (hnext (by simp) ⟨_, _, rfl, .inr rfl⟩).solid).trans ?_
    refine (hkey (by simp) (.inl rfl) (by decide)).trans ?_
    refine (goes_space (hnext (by simp) ⟨_, _, rfl, .inl rfl⟩).solid).trans ?_
    refine (goes_scalar (nullKey_word (by simp)).1 (by decide)
      (nullKey_quoted.follows ⟨_, _, rfl, .inr rfl⟩) (by decide) (by decide)).trans ?_
    refine (goes_key_next nullKey_quoted (by decide) (nullKey_quoted.isInline hinline)
      (Nat.le_of_ble_eq_true rfl) (.inl rfl)).trans ?_
    refine (goes_space (hnext (by simp) ⟨_, _, rfl, .inl rfl⟩).solid).trans ?_
    refine (goes_scalar (nullKey_word (by simp)).1 (by decide)
      hend (by decide) (by decide)).trans ?_
    -- three of the mappings end with the text
    refine (goes_close hend.solid (by decide)).trans ?_
    refine (goes_close hend.solid (by decide)).trans ?_
    exact goes_close hend.solid (by decide)
  exact scan_eq (List.all_eq_true.mp hallowed) hgoes

end Scan

/-- The tokens are put together to nodes. -/
theorem document_nullKey : (Yaml.Reader.document nullKeyTokens).toOption.map (fun r =>
    (r.result.nodes, r.result.hasAliases, r.result.isKnotted, r.tokens)) =
      some (nullKeyNodes, false, false, [.streamEnd]) := by decide +kernel

/-- The text is read. -/
theorem read_nullKey : Format.yaml.read nullKeyText = .ok nullKey := by
  obtain ⟨r, hr, hparts⟩ := Option.map_eq_some_iff.mp document_nullKey
  obtain ⟨hnodes, haliases, hknotted, htokens⟩ :
      r.result.nodes = nullKeyNodes ∧ r.result.hasAliases = false ∧
        r.result.isKnotted = false ∧
        r.tokens = [.streamEnd] := by simpa using hparts
  -- The parts of the document are evaluated one by one, so that no step has to evaluate all of
  -- them.
  have hresult : r.result = ⟨nullKeyNodes, false, false⟩ := by
    rcases hd : r.result with ⟨nodes, hasAliases, isKnotted⟩
    rw [hd] at hnodes haliases hknotted
    obtain rfl : nodes = nullKeyNodes := hnodes
    obtain rfl : hasAliases = false := haliases
    obtain rfl : isKnotted = false := hknotted
    rfl
  have hdocument : Yaml.Document.ofText? nullKeyText =
    .ok (some ⟨nullKeyNodes, false, false⟩) := by
    rw [Yaml.Document.ofText?, scan_nullKey]
    dsimp only
    rw [if_neg (by decide), toOption_eq_some.mp hr]
    dsimp only [bind, Except.bind]
    rw [htokens, hresult]
    rfl
  have hvalue : (do
      let a ← Yaml.Assembly.ofDocument ⟨nullKeyNodes, false, false⟩
      pure ((Yaml.unrolled ⟨nullKeyNodes, false, false⟩ a).getD 0 .null)) = .ok nullKey := by
    cbv
  rw [Format.read, Yaml.read, hdocument]
  exact congrArg (Except.mapError Unreadable.ofYaml) hvalue

/-- The bytes of a text are read as the text, with one kind of line break. -/
theorem decodeText?_bytes (text : String) :
    decodeText? text.toUTF8.data.toList = some (String.ofList (unifyBreaks text.toList)) := by
  have hvalid : String.fromUTF8? text.toUTF8 = some text := dif_pos text.isValidUTF8
  rw [decodeText?, Array.toArray_toList]
  change (String.fromUTF8? text.toUTF8).map _ = _
  rw [hvalid, Option.map_some]

/-- The value stands in the file. -/
theorem valueOfFile_nullKeyFile : Component.valueOfFile nullKeyFile = .ok nullKey := by
  -- The path, the text and the format of the file, from which the value is read.
  have hparts : "c.yaml".splitOn "/" = ["c.yaml"] := by
    rw [String.splitOn, if_neg (by decide)]
    iterate 6 rw [String.splitOnAux, if_neg (by decide), if_neg (by decide)]
    rw [String.splitOnAux, if_pos (by decide)]
    decide
  have hpath : nullKeyFile.path = ⟨"", ["c.yaml"]⟩ := by
    unfold SourceFile.path Path.ofString
    show Path.mk _ (List.filter _ ("c.yaml".splitOn "/")) = _
    rw [hparts]
    decide
  have hmissing : nullKeyFile.isMissing = .ok false := by
    unfold SourceFile.isMissing
    rw [hpath, if_neg (by decide)]
    rfl
  have htext : nullKeyFile.text = .ok nullKeyText := by
    have hbreaks : unifyBreaks nullKeyText.toList = nullKeyText.toList := by decide
    rw [SourceFile.text, nullKeyFile]
    dsimp only
    rw [decodeText?_bytes, hbreaks, String.ofList_toList]
  have hformat : Format.ofSuffix? (Path.mk "" ["c.yaml"]).suffix = some .yaml := by
    have hsuffix : (Path.mk "" ["c.yaml"]).suffix = String.ofList ".yaml".toList := by decide
    rw [Format.ofSuffix?, hsuffix, lower_eq_self ".yaml".toList (by decide)]
    decide
  unfold Component.valueOfFile
  rw [hmissing]
  dsimp only [bind, Except.bind]
  rw [hpath, hformat, htext]
  dsimp only
  rw [read_nullKey]
  rfl

/-- The value is loaded. -/
theorem parse_nullKey : Component.parse nullKey = .ok nullKeyContainer := rfl

/-- It takes few calls. -/
theorem callsFor_nullKey : 1 + Component.callsFor nullKey ≤ callLimit := by
  decide

/-- The file is loaded. -/
theorem ofFile_nullKeyFile : Component.ofFile nullKeyFile = .ok nullKeyContainer := by
  have hname : Text.isBlankText nullKeyFile.name = false := by
    change Text.isBlankText "c.yaml" = false
    decide
  unfold Component.ofFile Component.ofFileWithin
  rw [hname, valueOfFile_nullKeyFile]
  exact withinCalls_eq_ok.mpr ⟨parse_nullKey, callsFor_nullKey⟩

theorem nullKeyFile_gathers : ∃ v, Component.valueOfFile nullKeyFile = .ok v ∧
    nullKeyContainer.GatheredFrom lastEntry v ∧
      (nullKeyContainer.GatheredFrom everyEntry v ↔ ¬ v.Merges) :=
  loading_gathers ofFile_nullKeyFile

/-- **An entry may be lost.** -/
theorem nullKeyFile_loses : ¬ ∀ file c, Component.ofFile file = .ok c →
    ∃ v, Component.valueOfFile file = .ok v ∧ c.GatheredFrom everyEntry v := fun h => by
  obtain ⟨v, hv, hevery⟩ := h _ _ ofFile_nullKeyFile
  obtain rfl := Except.ok.inj (valueOfFile_nullKeyFile.symm.trans hv)
  have hproper : nullKeyContainer.Throughout Component.IsProper :=
    throughout_parse (fun _ _ _ => isProper_of_read) parse_nullKey
  exact Value.Merges.loses (.env (by decide)) hproper hevery

end PipelineCompiler
