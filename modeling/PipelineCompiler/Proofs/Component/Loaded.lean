import PipelineCompiler.Proofs.Component.Fields
import PipelineCompiler.Proofs.Component.Place
import PipelineCompiler.Proofs.Success

namespace PipelineCompiler

/-!
# What is loaded

* `Component.Throughout` — something holds of a component and of all components within it;
* `Component.NamesDiffer` — names that a component gives are different;
* `implementation_read`, `graph_read`, `tasks_read`, `task_read`, `reference_read` — what every
  part of a component that is read is read from;
* `throughout_parse` — what holds of every component that is read holds at every depth;
* `namesDiffer_ofValue` — names differ in everything that is loaded, at any depth.
-/

/-! ### Something holds at every depth -/

/-- Something holds of a component and of all components within it. -/
inductive Component.Throughout (holds : Component → Prop) : Component → Prop
  | intro {c : Component} (here : holds c)
      (inner : ∀ g, c.implementation = .graph g → ∀ entry ∈ g.tasks, ∀ component,
        entry.2.reference.spec = some component → Throughout holds component) :
      Throughout holds c

namespace Component.Throughout

variable {holds : Component → Prop} {c : Component}

/-- It holds of the component itself. -/
theorem self (h : c.Throughout holds) : holds c := by
  cases h with
  | intro here inner => exact here

/-- **It holds of whatever stands at a path.** -/
theorem at? (h : c.Throughout holds) {path : List String} {here : Placed}
    (hhere : c.at? path = some here) : here.component.Throughout holds := by
  induction path generalizing here with
  | nil =>
    obtain rfl := Option.some.inj hhere
    exact h
  | cons id outer ih =>
    obtain ⟨around, g, task, haround, hg, htask, hspec, -⟩ := at?_cons.mp hhere
    cases ih haround with
    | intro _ inner => exact inner g hg _ (Keyed.mem_of_find? htask) _ hspec

end Component.Throughout

/-- The names that a component gives are different: those of its inputs and those of its outputs,
    and the ids and output names of its graph. -/
structure Component.NamesDiffer (c : Component) : Prop where
  inputs : c.inputNames.Nodup
  outputs : c.outputNames.Nodup
  tasks : ∀ g, c.implementation = .graph g → (Keyed.keys g.tasks).Nodup
  outputValues : ∀ g, c.implementation = .graph g → (Keyed.keys g.outputValues).Nodup

/-! ### Interfaces -/

/-- A declared name is none of those before. -/
theorem declaredName_new {noun place name : String} {seen : List String} {fields : Value.Entries}
    (h : declaredName noun place seen fields = .ok name) : name ∉ seen := by
  unfold declaredName at h
  split at h
  next => cases h
  next found hfound =>
    split at h
    next => cases h
    next hnew => exact Except.ok.inj h ▸ hnew

/-- A new name before others that are new as well. -/
theorem differ_cons {seen names : List String} {name : String} (hname : name ∉ seen)
    (h : names.Nodup ∧ ∀ other ∈ names, other ∉ seen ++ [name]) :
    (name :: names).Nodup ∧ ∀ other ∈ name :: names, other ∉ seen := by
  obtain ⟨hnodup, hnew⟩ := h
  refine ⟨List.nodup_cons.mpr ⟨fun hmem => ?_, hnodup⟩, fun other hother hmem => ?_⟩
  · exact hnew name hmem (List.mem_append_right _ List.mem_cons_self)
  · rcases List.mem_cons.mp hother with rfl | hother
    · exact hname hmem
    · exact hnew other hother (List.mem_append_left _ hmem)

/-- The names of inputs are different, and none of those before. -/
theorem inputs_differ {items : List Value} {seen : List String} {index : Nat}
    {inputs : List InputSpec} (h : InputSpec.ofItems seen index items = .ok inputs) :
    (inputs.map InputSpec.name).Nodup ∧ ∀ name ∈ inputs.map InputSpec.name,
    name ∉ seen := by
  -- By induction on the items; each name is checked against those before it.
  induction items generalizing seen index inputs with
  | nil =>
    obtain rfl := Except.ok.inj h
    exact ⟨List.nodup_nil, fun _ hname => nomatch hname⟩
  | cons item rest ih =>
    unfold InputSpec.ofItems at h
    obtain ⟨input, hinput, h⟩ := bind_eq_ok.mp h
    obtain ⟨others, hothers, h⟩ := bind_eq_ok.mp h
    obtain rfl := pure_eq_ok.mp h
    unfold InputSpec.ofValue at hinput
    obtain ⟨fields, -, hinput⟩ := bind_eq_ok.mp hinput
    obtain ⟨name, hname, hinput⟩ := bind_eq_ok.mp hinput
    obtain ⟨isOptional, -, hinput⟩ := bind_eq_ok.mp hinput
    obtain ⟨default, -, hinput⟩ := bind_eq_ok.mp hinput
    obtain ⟨annotations, -, hinput⟩ := bind_eq_ok.mp hinput
    obtain rfl := pure_eq_ok.mp hinput
    exact differ_cons (declaredName_new hname) (ih hothers)

/-- The names of outputs are different, and none of those before. -/
theorem outputs_differ {items : List Value} {seen : List String} {index : Nat}
    {outputs : List OutputSpec} (h : OutputSpec.ofItems seen index items = .ok outputs) :
    (outputs.map OutputSpec.name).Nodup ∧ ∀ name ∈ outputs.map OutputSpec.name,
    name ∉ seen := by
  -- By induction on the items, with the names that were seen before.
  induction items generalizing seen index outputs with
  | nil =>
    obtain rfl := Except.ok.inj h
    exact ⟨List.nodup_nil, fun _ hname => nomatch hname⟩
  | cons item rest ih =>
    unfold OutputSpec.ofItems at h
    obtain ⟨output, houtput, h⟩ := bind_eq_ok.mp h
    obtain ⟨others, hothers, h⟩ := bind_eq_ok.mp h
    obtain rfl := pure_eq_ok.mp h
    unfold OutputSpec.ofValue at houtput
    obtain ⟨fields, -, houtput⟩ := bind_eq_ok.mp houtput
    obtain ⟨name, hname, houtput⟩ := bind_eq_ok.mp houtput
    obtain ⟨annotations, -, houtput⟩ := bind_eq_ok.mp houtput
    obtain rfl := pure_eq_ok.mp houtput
    exact differ_cons (declaredName_new hname) (ih hothers)

/-! ### Graphs -/

/-- The names of the outputs of a graph are different, since each is written under its own key. -/
theorem outputValues_differ {v : Value} {outputValues : List (String × TaskOutput)}
    (h : outputValuesOf v = .ok outputValues) : (Keyed.keys outputValues).Nodup := by
  unfold outputValuesOf at h
  split at h
  next =>
    split at h
    next entries _ =>
      -- Entries are put under keys, and putting an entry never makes a key occur twice.
      refine foldlM_keeps (I := fun done =>
        (Keyed.keys done).Nodup) (fun done entry next hok hdone =>
        ?_) h List.nodup_nil
      obtain ⟨argument, -, hok⟩ := bind_eq_ok.mp hok
      obtain ⟨name, -, hok⟩ := bind_eq_ok.mp hok
      cases argument with
      | taskOutput source =>
        obtain rfl := pure_eq_ok.mp hok
        exact Keyed.nodup_put hdone _ _
      | literal | graphInput => cases hok
    next => cases h
  next =>
    obtain rfl := pure_eq_ok.mp h
    exact List.nodup_nil

/-! ### The loader -/

/-- A task that is under its own id. -/
theorem underTask_eq_ok {key : Value} {result : Except Failure GraphTask}
    {entry : String × GraphTask}
    (h : underTask key result = .ok entry) : result = .ok entry.2 := by
  unfold underTask at h
  split at h
  next =>
    obtain ⟨task, htask, rfl⟩ := map_eq_ok.mp h
    unfold withinTask at htask
    cases result with
    | ok found => exact htask
    | error e => cases htask
  next =>
    split at h
    next => cases h
    next => cases h

section Loader

variable {readText : String → Except Failure Component}

/-- A component that is read has a container that is read, or a graph that is read. -/
theorem implementation_read {v : Value} {c : Component}
    (h : Component.ofValueWith readText v = .ok c) :
    (∃ found container, v.under? ["implementation", "container"] = some found ∧
      Container.ofValue found = .ok container ∧ c.implementation = .container container) ∨
    ∃ found g, v.under? ["implementation", "graph"] = some found ∧
      Component.graphOf readText found = .ok g ∧ c.implementation = .graph g := by
  rw [ofValueWith_eq] at h
  obtain ⟨fields, hbare, h⟩ := readMapping_eq_ok.mp h
  obtain ⟨implementation, himpl, h⟩ := bind_eq_ok.mp h
  obtain ⟨inputs, -, h⟩ := bind_eq_ok.mp h
  obtain ⟨outputs, -, h⟩ := bind_eq_ok.mp h
  obtain ⟨metadata, -, h⟩ := bind_eq_ok.mp h
  obtain rfl := pure_eq_ok.mp h
  rw [implementationField_eq] at himpl
  cases hfield : Value.field? fields "implementation" with
  | none =>
    rw [hfield] at himpl
    cases himpl
  | some found =>
    rw [hfield, Option.elim_some, implementationOf_eq] at himpl
    obtain ⟨parts, hparts, himpl⟩ := readMapping_eq_ok.mp himpl
    have hunder (name : String) :
        v.under? ["implementation", name] = Value.field? parts name := by
      rw [show ["implementation", name] = ["implementation"] ++ [name] from rfl, under?_append,
        under?_field hbare, hfield]
      exact under?_field hparts name
    -- A container counts before a graph, and one of them is there.
    split at himpl
    next container hcontainer =>
      obtain ⟨read, hread, rfl⟩ := map_eq_ok.mp himpl
      exact .inl ⟨container, read, (hunder _).trans hcontainer, hread, rfl⟩
    next =>
      rw [graphField_eq] at himpl
      cases hgraph : Value.field? parts "graph" with
      | none =>
        rw [hgraph] at himpl
        cases himpl
      | some graph =>
        rw [hgraph] at himpl
        obtain ⟨g, hg, rfl⟩ := map_eq_ok.mp himpl
        exact .inr ⟨graph, g, (hunder _).trans hgraph, hg, rfl⟩

/-- A graph that is read has the entries of a mapping as its tasks. -/
theorem graph_read {v : Value} {g : Graph} (h : Component.graphOf readText v = .ok g) :
    (∃ tasks entries, v.under? ["tasks"] = some tasks ∧ tasks.bare = .map entries ∧
      Component.taskEntries readText [] entries = .ok g.tasks) ∧
    ∃ found, outputValuesOf found = .ok g.outputValues := by
  rw [graphOf_eq] at h
  obtain ⟨fields, hbare, h⟩ := readMapping_eq_ok.mp h
  obtain ⟨tasks, htasks, h⟩ := bind_eq_ok.mp h
  obtain ⟨outputValues, hvalues, h⟩ := bind_eq_ok.mp h
  obtain rfl := pure_eq_ok.mp h
  refine ⟨?_, _, hvalues⟩
  rw [tasksField_eq] at htasks
  -- There is no graph without a field for tasks, which is the first case.
  cases hfield : Value.field? fields "tasks" with
  | none =>
    rw [hfield] at htasks
    cases htasks
  | some found =>
    rw [hfield, Option.elim_some, tasksOf_eq] at htasks
    obtain ⟨entries, hentries, htasks⟩ := readMapping_eq_ok.mp htasks
    exact ⟨found, entries, (under?_field hbare _).trans hfield, hentries, htasks⟩

/-- Tasks are read from entries, each under its own id. -/
theorem tasks_read {entries : Value.Entries} {done tasks : List (String × GraphTask)}
    (h : Component.taskEntries readText done entries = .ok tasks)
    (hdone : (Keyed.keys done).Nodup) :
    (Keyed.keys tasks).Nodup ∧ ∀ entry ∈ tasks, entry ∈ done ∨
      ∃ key value, (key, value) ∈ entries ∧
        Component.taskOf readText value = .ok entry.2 := by
  -- By induction on the entries; an entry with a key that was there replaces the one before.
  induction entries generalizing done with
  | nil =>
    obtain rfl := Except.ok.inj h
    exact ⟨hdone, fun entry hentry => .inl hentry⟩
  | cons first rest ih =>
    obtain ⟨key, value⟩ := first
    rw [Component.taskEntries] at h
    obtain ⟨⟨id, task⟩, htask, h⟩ := bind_eq_ok.mp h
    obtain ⟨hnodup, hread⟩ := ih h (Keyed.nodup_put hdone _ _)
    refine ⟨hnodup, fun entry hentry => ?_⟩
    rcases hread entry hentry with hput | ⟨otherKey, other, hmem, hother⟩
    · rcases Keyed.mem_put hput with hentry | rfl
      · exact .inl hentry
      · exact .inr ⟨key, value, List.mem_cons_self, underTask_eq_ok htask⟩
    · exact .inr ⟨otherKey, other, List.mem_cons_of_mem _ hmem, hother⟩

/-- A task that is read has its arguments from a mapping, and a reference that is read. -/
theorem task_read {v : Value} {task : GraphTask} (h : Component.taskOf readText v = .ok task) :
    (∃ entries, readEntries Argument.parse entries = .ok task.arguments) ∧
    ∃ found, v.under? ["componentRef"] = some found ∧
      Component.referenceOf readText found = .ok task.reference := by
  rw [taskOf_eq] at h
  obtain ⟨fields, hbare, h⟩ := readMapping_eq_ok.mp h
  dsimp only at h
  split at h
  next => cases h
  next =>
    obtain ⟨given, -, h⟩ := bind_eq_ok.mp h
    obtain ⟨reference, hreference, h⟩ := bind_eq_ok.mp h
    obtain ⟨arguments, harguments, h⟩ := bind_eq_ok.mp h
    obtain ⟨annotations, -, h⟩ := bind_eq_ok.mp h
    obtain rfl := pure_eq_ok.mp h
    refine ⟨⟨given, harguments⟩, ?_⟩
    rw [under?_field hbare]
    rw [referenceField_eq] at hreference
    cases hfield : Value.field? fields "componentRef" with
    | none =>
      rw [hfield] at hreference
      cases hreference
    | some found =>
      rw [hfield] at hreference
      exact ⟨found, rfl, hreference⟩

/-- The component of a reference that is read is read from a value or from a text. -/
theorem reference_read {v : Value} {reference : ComponentReference} {component : Component}
    (h : Component.referenceOf readText v = .ok reference)
    (hspec : reference.spec = some component) :
    (∃ found, v.under? ["spec"] = some found ∧
      Component.ofValueWith readText found = .ok component) ∨
    ∃ text, readText text = .ok component := by
  rw [referenceOf_eq] at h
  obtain ⟨fields, hbare, h⟩ := readMapping_eq_ok.mp h
  obtain ⟨given, hgiven, h⟩ := bind_eq_ok.mp h
  rw [specField_eq] at hgiven
  dsimp only at h
  -- Given as a value, given as a text, or not at all; in the last case there is no component to
  -- speak of.
  split at h
  next read _ =>
    obtain rfl := pure_eq_ok.mp h
    obtain rfl := Option.some.inj hspec
    left
    rw [under?_field hbare]
    cases hfield : Value.field? fields "spec" with
    | none =>
      rw [hfield] at hgiven
      cases hgiven
    | some found =>
      rw [hfield, Option.elim_some] at hgiven
      split at hgiven
      next => cases hgiven
      next =>
        obtain ⟨_, hread, heq⟩ := map_eq_ok.mp hgiven
        obtain rfl := Option.some.inj heq
        exact ⟨found, rfl, hread⟩
  next text _ =>
    obtain ⟨found, hfound, h⟩ := bind_eq_ok.mp h
    obtain ⟨read, hread, rfl⟩ := map_eq_ok.mp hfound
    obtain rfl := pure_eq_ok.mp h
    exact .inr ⟨text, Option.some.inj hspec ▸ hread⟩
  next =>
    obtain rfl := pure_eq_ok.mp h
    cases hspec

/-- What holds of every component that is read, and of all components in texts, holds at every
    depth.  The induction is on the size of the value: a component of a task lies within it. -/
theorem throughout_ofValueWith {holds : Component → Prop}
    (hhere : ∀ v c, Component.ofValueWith readText v = .ok c → holds c)
    (htexts : ∀ text c, readText text = .ok c → c.Throughout holds) (v : Value) (c : Component)
    (h : Component.ofValueWith readText v = .ok c) : c.Throughout holds := by
  -- Here it holds by assumption, so only a component of a task is to be looked at.
  refine .intro (hhere v c h) fun g himpl entry hentry component hspec => ?_
  obtain ⟨_, _, -, -, hcontainer⟩ | ⟨graph, g', hgraph, hg, himpl'⟩ := implementation_read h
  · rw [himpl] at hcontainer
    cases hcontainer
  obtain rfl : g = g' := Implementation.graph.inj (himpl.symm.trans himpl')
  obtain ⟨⟨tasks, entries, htasks, hbare, hentries⟩, -⟩ := graph_read hg
  obtain hdone | ⟨key, value, hmem, htask⟩ :=
    (tasks_read hentries List.nodup_nil).2 entry hentry
  · cases hdone
  obtain ⟨-, found, hfound, hreference⟩ := task_read htask
  obtain ⟨spec, hunder, hread⟩ | ⟨text, hread⟩ := reference_read hreference hspec
  -- From the component within out to the value, one field after another.
  · have hsmaller : sizeOf spec < sizeOf v := calc
      sizeOf spec ≤ sizeOf found := sizeOf_under?_le hunder
      _ ≤ sizeOf value := sizeOf_under?_le hfound
      _ < sizeOf tasks := sizeOf_lt_of_mem hbare hmem
      _ ≤ sizeOf graph := sizeOf_under?_le htasks
      _ ≤ sizeOf v := sizeOf_under?_le hgraph
    exact throughout_ofValueWith hhere htexts spec component hread
  · exact htexts text component hread
termination_by sizeOf v

end Loader

/-- **What holds of every component that is read holds of all that is loaded**, at every depth. -/
theorem throughout_parse {holds : Component → Prop}
    (hhere : ∀ readText v c, Component.ofValueWith readText v = .ok c → holds c) {v : Value}
    {c : Component} (h : Component.parse v = .ok c) : c.Throughout holds := by
  have htexts : ∀ depth text c, Component.ofText depth text = .ok c → c.Throughout holds := by
    intro depth
    induction depth with
    | zero => exact fun text c h => nomatch h
    | succ depth ih =>
      intro text c h
      obtain ⟨v, -, h⟩ := bind_eq_ok.mp h
      exact throughout_ofValueWith (hhere _) ih v c h
  exact throughout_ofValueWith (hhere _) (fun text c h => htexts _ text c h) v c h

/-! ### Different names -/

/-- A component that is read has different names. -/
theorem namesDiffer_of_read {readText : String → Except Failure Component} {v : Value}
    {c : Component} (h : Component.ofValueWith readText v = .ok c) : c.NamesDiffer := by
  have himplementation := implementation_read h
  rw [ofValueWith_eq] at h
  obtain ⟨fields, -, h⟩ := readMapping_eq_ok.mp h
  obtain ⟨implementation, -, h⟩ := bind_eq_ok.mp h
  obtain ⟨inputs, hinputs, h⟩ := bind_eq_ok.mp h
  obtain ⟨outputs, houtputs, h⟩ := bind_eq_ok.mp h
  obtain ⟨metadata, -, h⟩ := bind_eq_ok.mp h
  obtain rfl := pure_eq_ok.mp h
  obtain ⟨inputItems, -, hinputs⟩ := bind_eq_ok.mp hinputs
  obtain ⟨outputItems, -, houtputs⟩ := bind_eq_ok.mp houtputs
  -- The names of tasks and outputs differ, since both are keys.
  have hgraph : ∀ g, implementation = .graph g →
      (Keyed.keys g.tasks).Nodup ∧ (Keyed.keys g.outputValues).Nodup := by
    rintro g rfl
    obtain ⟨_, _, -, -, hcontainer⟩ | ⟨graph, g', -, hg, himpl⟩ := himplementation
    · cases hcontainer
    obtain rfl := Implementation.graph.inj himpl
    obtain ⟨⟨tasks, entries, -, -, hentries⟩, found, hvalues⟩ := graph_read hg
    exact ⟨(tasks_read hentries List.nodup_nil).1, outputValues_differ hvalues⟩
  exact ⟨(inputs_differ hinputs).1, (outputs_differ houtputs).1, fun g himpl =>
    (hgraph g himpl).1, fun g himpl => (hgraph g himpl).2⟩

/-- **Whatever is loaded has different names**, at any depth. -/
theorem namesDiffer_ofValue {v : Value} {c : Component} (h : Component.ofValue v = .ok c) :
    c.Throughout Component.NamesDiffer :=
  throughout_parse (fun _ _ _ => namesDiffer_of_read) (parse_of_ofValue h)

end PipelineCompiler
