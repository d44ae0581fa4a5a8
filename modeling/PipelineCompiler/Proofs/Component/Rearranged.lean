import PipelineCompiler.Proofs.Agreement
import PipelineCompiler.Proofs.Graph.Order

namespace PipelineCompiler

/-!
# Components in another order

Tasks and arguments are written as mappings, whose order says nothing.

* `Component.Rearranged` — components that differ in nothing but the order in which the tasks of
  graphs and the arguments of tasks are written, at any depth;
* `Graph.Rearranged` — the same for graphs, with what a look-up of a task finds;
* `Graph.Rearranged.order` — the order in which tasks are compiled is the same.

The relation looks inwards, into the components of tasks, so that a proof about it may go by
induction on components.
-/

mutual

/-- Components that differ in nothing but the order in which tasks and arguments are written.  In a
    mapping every key stands once. -/
inductive Component.Rearranged : Component → Component → Prop
  | container {container : Container} {name description : Value} {inputs : List InputSpec}
      {outputs : List OutputSpec} {metadata : Value.Entries} :
      Component.Rearranged ⟨.container container, name, description, inputs, outputs, metadata⟩
        ⟨.container container, name, description, inputs, outputs, metadata⟩
  | graph {tasks same tasks' : List (String × GraphTask)}
      {outputValues : List (String × TaskOutput)} {name description : Value}
      {inputs : List InputSpec} {outputs : List OutputSpec} {metadata : Value.Entries}
      (nodup : (Keyed.keys tasks).Nodup) (each : List.Forall₂ RearrangedTask tasks same)
      (perm : same.Perm tasks') :
      Component.Rearranged
        ⟨.graph ⟨tasks, outputValues⟩, name, description, inputs, outputs, metadata⟩
        ⟨.graph ⟨tasks', outputValues⟩, name, description, inputs, outputs, metadata⟩

/-- Entries for one task, whose arguments and component may be rearranged. -/
inductive RearrangedTask : String × GraphTask → String × GraphTask → Prop
  | unresolved {id : String} {name digest tag url : Value}
      {arguments arguments' : List (String × Argument)} {annotations : Value.Entries}
      (nodup : (Keyed.keys arguments).Nodup) (perm : arguments.Perm arguments') :
      RearrangedTask (id, ⟨⟨name, digest, tag, url, none⟩, arguments, annotations⟩)
        (id, ⟨⟨name, digest, tag, url, none⟩, arguments', annotations⟩)
  | resolved {id : String} {name digest tag url : Value} {component component' : Component}
      {arguments arguments' : List (String × Argument)} {annotations : Value.Entries}
      (inner : Component.Rearranged component component')
      (nodup : (Keyed.keys arguments).Nodup) (perm : arguments.Perm arguments') :
      RearrangedTask (id, ⟨⟨name, digest, tag, url, some component⟩,
        arguments, annotations⟩)
        (id, ⟨⟨name, digest, tag, url, some component'⟩, arguments', annotations⟩)

end

/-- Graphs that differ in nothing but the order in which tasks and arguments are written. -/
structure Graph.Rearranged (g g' : Graph) : Prop where
  nodup : (Keyed.keys g.tasks).Nodup
  tasks : ∃ same, List.Forall₂ RearrangedTask g.tasks same ∧ same.Perm g'.tasks
  outputValues : g.outputValues = g'.outputValues

/-! ### Interfaces -/

namespace Component.Rearranged

variable {c c' : Component}

/-- The names stay. -/
theorem name (h : c.Rearranged c') : c.name = c'.name := by
  cases h with
  | container | graph => rfl

/-- The inputs stay. -/
theorem inputs (h : c.Rearranged c') : c.inputs = c'.inputs := by
  cases h with
  | container | graph => rfl

/-- The outputs stay. -/
theorem outputs (h : c.Rearranged c') : c.outputs = c'.outputs := by
  cases h with
  | container | graph => rfl

/-- The names of the inputs stay. -/
theorem inputNames (h : c.Rearranged c') : c.inputNames = c'.inputNames := by
  rw [Component.inputNames, h.inputs, Component.inputNames]

/-- The names of the outputs stay. -/
theorem outputNames (h : c.Rearranged c') : c.outputNames = c'.outputNames := by
  rw [Component.outputNames, h.outputs, Component.outputNames]

/-- A component that a container implements stays as it is. -/
theorem eq_of_container (h : c.Rearranged c') {container : Container}
    (himpl : c.implementation = .container container) : c = c' := by
  cases h with
  | container => rfl
  | graph => cases himpl

/-- A component that a graph implements is implemented by a rearranged graph. -/
theorem graph_of_graph (h : c.Rearranged c') {g : Graph} (himpl : c.implementation = .graph g) :
    ∃ g', c'.implementation = .graph g' ∧ g.Rearranged g' := by
  cases h with
  | container => cases himpl
  | @graph tasks same tasks' outputValues _ _ _ _ _ nodup each perm =>
    cases himpl
    exact ⟨⟨tasks', outputValues⟩, rfl, nodup, ⟨same, each, perm⟩, rfl⟩

end Component.Rearranged

/-! ### Tasks -/

/-- The arguments of a task: the same ones are found, and the same ones are there. -/
theorem RearrangedTask.arguments {entry entry' : String × GraphTask}
    (h : RearrangedTask entry entry') :
    Keyed.Same entry.2.arguments entry'.2.arguments ∧
      entry.2.arguments.Perm entry'.2.arguments := by
  cases h with
  | unresolved nodup perm | resolved _ nodup perm =>
    exact ⟨Keyed.same_of_perm perm nodup, perm⟩

/-- The id of a task. -/
theorem RearrangedTask.id {entry entry' : String × GraphTask} (h : RearrangedTask entry entry') :
    entry.1 = entry'.1 := by
  cases h with
  | unresolved | resolved => rfl

/-- The component of a task is there in both orders or in none, and may be rearranged. -/
theorem RearrangedTask.spec {entry entry' : String × GraphTask}
    (h : RearrangedTask entry entry') :
    entry.2.reference.spec = none ∧ entry'.2.reference.spec = none ∨
      ∃ c c', entry.2.reference.spec = some c ∧ entry'.2.reference.spec = some c' ∧
        c.Rearranged c' := by
  cases h with
  | unresolved => exact .inl ⟨rfl, rfl⟩
  | resolved inner => exact .inr ⟨_, _, rfl, rfl, inner⟩

/-- The tasks that a task needs depend on no order. -/
theorem RearrangedTask.producers {entry entry' : String × GraphTask}
    (h : RearrangedTask entry entry') : entry.2.producers = entry'.2.producers :=
  sortedTexts_congr fun _ => (h.arguments.2.filterMap _).mem_iff

namespace Graph.Rearranged

variable {g g' : Graph}

/-- The ids of the tasks are the same. -/
theorem keys (h : g.Rearranged g') : (Keyed.keys g.tasks).Perm (Keyed.keys g'.tasks) := by
  obtain ⟨same, each, perm⟩ := h.tasks
  have hkeys : Keyed.keys g.tasks = Keyed.keys same :=
    List.forall₂_eq_eq_eq ▸ List.forall₂_map_left_iff.mpr
      (List.forall₂_map_right_iff.mpr (each.imp fun _ _ hentry => hentry.id))
  rw [hkeys]
  exact perm.map _

/-- **A look-up finds the same task**, which may be rearranged itself. -/
theorem task? (h : g.Rearranged g') (id : String) :
    g.task? id = none ∧ g'.task? id = none ∨ ∃ t t', g.task? id = some t ∧
      g'.task? id = some t' ∧ RearrangedTask (id, t) (id, t') := by
  obtain ⟨same, each, perm⟩ := h.tasks
  have hnodup : (Keyed.keys g'.tasks).Nodup := h.keys.nodup_iff.mp h.nodup
  have hfind : Keyed.find? same id = g'.task? id :=
    Keyed.same_of_perm perm (perm.map _ |>.nodup_iff.mpr hnodup) id
  rw [← hfind]
  refine Keyed.find?_forall₂ (R := fun key t t' => RearrangedTask (key, t) (key, t'))
    (each.imp fun entry entry' hentry => ⟨hentry.id, ?_⟩) id
  obtain ⟨key, task⟩ := entry
  obtain ⟨key', task'⟩ := entry'
  obtain rfl : key = key' := hentry.id
  exact hentry

/-! ### Faults -/

/-- The same references to outputs lead nowhere. -/
theorem brokenOutput? (h : g.Rearranged g') (source : TaskOutput) :
    g.brokenOutput? source = g'.brokenOutput? source := by
  unfold Graph.brokenOutput?
  rcases h.task? source.task with ⟨ht, ht'⟩ | ⟨t, t', ht, ht', htask⟩
  · rw [ht, ht']
  · rw [ht, ht']
    dsimp only
    rcases htask.spec with ⟨hc, hc'⟩ | ⟨c, c', hc, hc', hinner⟩
    · rw [hc, hc']
    · rw [hc, hc']
      dsimp only
      rw [hinner.outputNames]

/-- The same arguments lead nowhere. -/
theorem brokenArgument? (h : g.Rearranged g') (inputs : List String) (argument : Argument) :
    g.brokenArgument? inputs argument = g'.brokenArgument? inputs argument := by
  cases argument with
  | literal | graphInput => rfl
  | taskOutput source => exact h.brokenOutput? source

/-- The same tasks have no fault. -/
theorem taskFault?_eq_none (h : g.Rearranged g') (inputs : List String)
    {entry entry' : String × GraphTask} (htask : RearrangedTask entry entry') :
    g.taskFault? inputs entry.2 = none ↔ g'.taskFault? inputs entry'.2 = none := by
  have hspec : entry.2.reference.spec.isNone = entry'.2.reference.spec.isNone := by
    rcases htask.spec with ⟨hc, hc'⟩ | ⟨c, c', hc, hc', -⟩
    · rw [hc, hc']
    · rw [hc, hc']
      rfl
  unfold Graph.taskFault?
  rw [hspec]
  split
  · simp
  · simp only [Option.map_eq_none_iff, List.findSome?_eq_none_iff]
    simp only [h.brokenArgument?, htask.arguments.2.mem_iff]

/-- The same graphs have no fault. -/
theorem fault?_eq_none (h : g.Rearranged g') (inputs : List String) :
    g.fault? inputs = none ↔ g'.fault? inputs = none := by
  have houtput : g.outputFault? = g'.outputFault? := by
    unfold Graph.outputFault?
    rw [← h.outputValues]
    simp only [h.brokenOutput?]
  have heach : ∀ {tasks same : List (String × GraphTask)},
    List.Forall₂ RearrangedTask tasks same →
      ((∀ entry ∈ tasks, g.taskFault? inputs entry.2 = none) ↔
        ∀ entry ∈ same, g'.taskFault? inputs entry.2 = none) := by
    intro tasks same each
    -- By induction on the pairs of tasks.
    induction each with
    | nil => simp
    | cons hentry _ ih => simp only [List.forall_mem_cons, ih, h.taskFault?_eq_none inputs hentry]
  have htasks : (∀ entry ∈ g.tasks, g.taskFault? inputs entry.2 = none) ↔
      ∀ entry ∈ g'.tasks, g'.taskFault? inputs entry.2 = none := by
    obtain ⟨same, each, perm⟩ := h.tasks
    rw [heach each]
    simp only [perm.mem_iff]
  unfold Graph.fault?
  simp only [Option.or_eq_none_iff, List.findSome?_eq_none_iff, Option.map_eq_none_iff, htasks,
    houtput]

/-! ### Orders -/

/-- The producers of a task are the same. -/
theorem dependencies (h : g.Rearranged g') (id : String) :
    Keyed.find? g.dependencies id = Keyed.find? g'.dependencies id := by
  rw [find?_dependencies, find?_dependencies]
  change (g.task? id).map _ = (g'.task? id).map _
  rcases h.task? id with ⟨ht, ht'⟩ | ⟨t, t', ht, ht', htask⟩
  · rw [ht, ht']
  · rw [ht, ht', Option.map_some, Option.map_some, htask.producers]

/-- The same tasks are ready. -/
theorem ready (h : g.Rearranged g') (placed : List String) (id : String) :
    id ∈ readyTasks g.dependencies placed ↔ id ∈ readyTasks g'.dependencies placed := by
  rw [mem_readyTasks, mem_readyTasks, keys_dependencies, keys_dependencies, h.keys.mem_iff,
    Planner.producersOf, Planner.producersOf, h.dependencies]

/-- The same tasks are placed, one after another. -/
theorem placed (h : g.Rearranged g') : g.placedTasks = g'.placedTasks := by
  have hplace : ∀ count placed,
      placeTasks g.dependencies count placed = placeTasks g'.dependencies count placed := by
    intro count
    induction count with
    | zero => exact fun _ => rfl
    | succ count ih =>
      intro placed
      rw [placeTasks, placeTasks, nextTask?_congr (h.ready placed)]
      split
      · rfl
      · exact ih _
  have hlength : g.tasks.length = g'.tasks.length := by
    have hkeys := h.keys.length_eq
    rwa [Keyed.keys, Keyed.keys, List.length_map, List.length_map] at hkeys
  rw [Graph.placedTasks, Graph.placedTasks, hlength, hplace]

/-- The same tasks are stuck. -/
theorem stuck (h : g.Rearranged g') (placed : List String) :
    g.stuckTasks placed = g'.stuckTasks placed :=
  orderedTexts_congr (h.keys.filter _)

/-- **The order in which tasks are compiled is the same**, if there is one. -/
theorem order (h : g.Rearranged g') (inputs : List String) :
    Agree .anyFailure Eq (g.order inputs) (g'.order inputs) := by
  have hfault := h.fault?_eq_none inputs
  rw [order_eq, order_eq, h.placed, h.stuck]
  cases hg : g.fault? inputs with
  | none =>
    rw [hfault.mp hg]
    exact .refl fun _ _ => trivial
  | some e =>
    cases hg' : g'.fault? inputs with
    | none => rw [hfault.mpr hg'] at hg; cases hg
    | some e' => exact .neither trivial

end Graph.Rearranged

end PipelineCompiler
