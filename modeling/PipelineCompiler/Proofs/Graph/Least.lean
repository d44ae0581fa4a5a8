import PipelineCompiler.Proofs.Graph.Order

namespace PipelineCompiler

/-!
# The order of tasks is the least one

Of all the orders in which every task of a graph stands behind its producers, the order of the
graph is the first in the dictionary of id sequences, where ids are compared by code points.

* `Graph.Sorts` — such an order: the ids of all tasks, every producer before those who need it;
* `placeTasks_least` — placing the least ready task again and again gives the least of them;
* `Graph.HasOutput`, `Argument.Leads` — an output of a task, and an argument that leads to one or
  to an input of the graph;
* `order_least` — the order of a graph is the least, and every reference in the graph leads
  somewhere.

The induction is on the number of tasks that are still to be placed.  It compares with one other
order, which begins with what is placed: its next task is ready, so the one that is placed is not
greater.
-/

/-- An order of the tasks of a graph: their ids, those of producers before those of the tasks that
    need them. -/
structure Graph.Sorts (g : Graph) (order : List String) : Prop where
  perm : order.Perm (Keyed.keys g.tasks)
  before : ∀ id producers, Keyed.find? g.dependencies id = some producers →
    ∀ p ∈ producers, order.idxOf p < order.idxOf id

/-! ### Placing the least task -/

/-- What was placed stays where it is. -/
theorem placeTasks_extends (dependencies : Keyed (List String)) (count : Nat)
    (placed : List String) : ∃ rest, placeTasks dependencies count placed = placed ++ rest := by
  induction count generalizing placed with
  | zero => exact ⟨[], (List.append_nil placed).symm⟩
  | succ count ih =>
    unfold placeTasks
    split
    next => exact ⟨[], (List.append_nil placed).symm⟩
    next id _ =>
      obtain ⟨rest, hrest⟩ := ih (placed ++ [id])
      exact ⟨id :: rest, by rw [hrest, List.append_assoc, List.singleton_append]⟩

/-- The task that comes next in an order is ready. -/
theorem Ordered.next_ready {dependencies : Keyed (List String)} {placed rest : List String}
    {next : String} (h : Ordered dependencies (placed ++ next :: rest)) :
    next ∈ readyTasks dependencies placed := by
  have hkey : next ∈ Keyed.keys dependencies := h.keys next (by simp)
  have hnew : next ∉ placed := by
    intro hmem
    exact (List.nodup_append.mp h.nodup).2.2 next hmem next List.mem_cons_self rfl
  obtain ⟨producers, hproducers⟩ := Keyed.exists_find?_of_mem_keys hkey
  have hplaced := h.before placed next rest rfl producers hproducers
  rw [← producersOf_eq hproducers] at hplaced
  exact mem_readyTasks.mpr ⟨hkey, hnew, hplaced⟩

/-- Sequences that go on with a smaller id come first, whatever follows. -/
theorem append_cons_lt {before after rest : List String} {id next : String}
    (h : Text.codes id < Text.codes next) :
    (before ++ id :: after).map Text.codes < (before ++ next :: rest).map Text.codes := by
  induction before with
  | nil => exact List.cons_lt_cons_iff.mpr (.inl h)
  | cons first before ih => exact List.cons_lt_cons_iff.mpr (.inr ⟨rfl, ih⟩)

/-- No task is ready when all are placed. -/
theorem readyTasks_eq_nil {dependencies : Keyed (List String)} {placed : List String}
    (hall : ∀ id ∈ Keyed.keys dependencies, id ∈ placed) :
    readyTasks dependencies placed = [] := by
  apply List.filter_eq_nil_iff.mpr
  intro id hid
  simp [hall id hid]

/-- **Placing the least ready task gives the least order** of those that begin with what is
    placed. -/
theorem placeTasks_least {dependencies : Keyed (List String)} (count : Nat)
    {placed rest : List String} (h : Ordered dependencies (placed ++ rest))
    (hall : ∀ id ∈ Keyed.keys dependencies, id ∈ placed ++ rest)
    (hcount : rest.length ≤ count) :
    (placeTasks dependencies count placed).map Text.codes ≤ (placed ++ rest).map Text.codes := by
  induction count generalizing placed rest with
  | zero =>
    obtain rfl : rest = [] := List.length_eq_zero_iff.mp (Nat.le_zero.mp hcount)
    rw [List.append_nil]
    exact le_refl (placed.map Text.codes)
  | succ count ih =>
    unfold placeTasks
    cases rest with
    | nil =>
      rw [List.append_nil] at hall ⊢
      rw [nextTask?, readyTasks_eq_nil hall]
      exact le_refl (placed.map Text.codes)
    | cons next rest =>
      have hnext := h.next_ready
      split
      next hnone =>
        rw [nextTask?_eq_none hnone] at hnext
        cases hnext
      next id hid =>
        -- either the other order goes on with a greater task, or with the one that is placed
        rcases lt_or_eq_of_le (nextTask?_le hid next hnext) with hlt | heq
        · obtain ⟨after, hafter⟩ := placeTasks_extends dependencies count (placed ++ [id])
          rw [hafter, List.append_assoc, List.singleton_append]
          exact le_of_lt (append_cons_lt hlt)
        · obtain rfl := Text.codes_injective heq
          rw [List.append_cons placed id rest] at h hall ⊢
          exact ih h hall (by simpa using hcount)

/-! ### Orders of a graph -/

variable {g : Graph} {inputs order : List String}

/-- An order of the tasks has them in order. -/
theorem Graph.Sorts.ordered (h : g.Sorts order) (hkeys : (Keyed.keys g.tasks).Nodup) :
    Ordered g.dependencies order := by
  have hnodup : order.Nodup := h.perm.nodup_iff.mpr hkeys
  refine ⟨hnodup, ?_, ?_⟩
  · intro id hid
    rw [keys_dependencies]
    exact h.perm.mem_iff.mp hid
  · intro earlier id later heq producers hproducers p hp
    have hbefore := h.before id producers hproducers p hp
    have hid : id ∉ earlier := by
      subst heq
      intro hmem
      exact (List.nodup_append.mp hnodup).2.2 id hmem id List.mem_cons_self rfl
    -- what stands before the task stands among those before it
    by_contra hp'
    have hidx : order.idxOf id = earlier.length := by
      rw [heq, List.idxOf_append_of_notMem hid, List.idxOf_cons_self, Nat.add_zero]
    rw [hidx, heq, List.idxOf_append_of_notMem hp'] at hbefore
    omega

/-- The order of a planned graph is an order of its tasks. -/
theorem Planned.sorts (h : Planned g inputs order) (hkeys : (Keyed.keys g.tasks).Nodup) :
    g.Sorts order := by
  refine ⟨(List.perm_ext_iff_of_nodup h.nodup hkeys).mpr h.mem_iff, ?_⟩
  intro id producers hproducers p hp
  rw [find?_dependencies] at hproducers
  obtain ⟨task, htask, rfl⟩ := Option.map_eq_some_iff.mp hproducers
  have hid : id ∈ order := (h.mem_iff id).mpr (Keyed.mem_keys_of_find? htask)
  -- The order is cut at the task: its producers stand in the first part, and it does not.
  obtain ⟨earlier, later, rfl⟩ := List.append_of_mem hid
  have hmem : p ∈ earlier := h.before earlier id later rfl task htask p hp
  have hnew : id ∉ earlier := by
    intro hmem'
    exact (List.nodup_append.mp h.nodup).2.2 id hmem' id List.mem_cons_self rfl
  have hlt : earlier.idxOf p < earlier.length := List.idxOf_lt_length_iff.mpr hmem
  rw [List.idxOf_append_of_mem hmem, List.idxOf_append_of_notMem hnew, List.idxOf_cons_self]
  omega

/-- An output that a task of the graph has. -/
def Graph.HasOutput (g : Graph) (source : TaskOutput) : Prop :=
  ∃ producer component, g.task? source.task = some producer ∧
    producer.reference.spec = some component ∧ source.output ∈ component.outputNames

/-- An argument that stands for itself, or leads to an input of the graph or to an output of one of
    its tasks. -/
def Argument.Leads (g : Graph) (inputs : List String) : Argument → Prop
  | .literal _ => True
  | .graphInput input _ => input ∈ inputs
  | .taskOutput source => g.HasOutput source

/-- Every task has a component, and every argument and every output of the graph leads
    somewhere. -/
structure Graph.Leads (g : Graph) (inputs : List String) : Prop where
  components : ∀ entry ∈ g.tasks, ∃ component, entry.2.reference.spec = some component
  arguments : ∀ entry ∈ g.tasks, ∀ argument ∈ entry.2.arguments, argument.2.Leads g inputs
  outputs : ∀ output ∈ g.outputValues, g.HasOutput output.2

/-- What leads nowhere is at fault in a planned graph. -/
theorem Planned.leads (h : Planned g inputs order) : g.Leads inputs where
  components entry hentry := Option.isSome_iff_exists.mp (h.specified entry hentry)
  arguments entry hentry argument hargument := by
    have hbroken := h.arguments entry hentry argument hargument
    cases heq : argument.2 with
    | literal text => trivial
    | graphInput input type =>
      rw [heq, Graph.brokenArgument?] at hbroken
      show input ∈ inputs
      -- An input that the component does not have is a fault of the argument.
      by_contra hinput
      rw [if_neg hinput] at hbroken
      cases hbroken
    | taskOutput source =>
      rw [heq] at hbroken
      exact h.declares hbroken
  outputs output houtput := h.declares (h.outputs output houtput)

/-- The order of a graph is what can be placed. -/
theorem placed_of_order (h : g.order inputs = .ok order) :
    order = placeTasks g.dependencies g.tasks.length [] := by
  rw [order_eq] at h
  split at h
  next => cases h
  next =>
    split at h
    next => exact (Except.ok.inj h).symm
    next => cases h

/-- **The order of a graph is the least.**  If the ids of the tasks are different, the order is the
    first, in the dictionary of id sequences, of all orders in which every task stands behind its
    producers; and every task has a component then, and every reference leads somewhere. -/
theorem order_least (hkeys : (Keyed.keys g.tasks).Nodup) (h : g.order inputs = .ok order) :
    g.Sorts order ∧
      (∀ other, g.Sorts other → order.map Text.codes ≤ other.map Text.codes) ∧
      g.Leads inputs := by
  have hplanned := order_planned h
  refine ⟨hplanned.sorts hkeys, fun other hother => ?_, hplanned.leads⟩
  have hplaced : order = placeTasks g.dependencies g.tasks.length [] := placed_of_order h
  have hall : ∀ id ∈ Keyed.keys g.dependencies, id ∈ other := by
    intro id hid
    rw [keys_dependencies] at hid
    exact hother.perm.mem_iff.mpr hid
  have hlength : other.length ≤ g.tasks.length := by
    rw [hother.perm.length_eq, Keyed.keys, List.length_map]
  -- Any other order extends the tasks placed so far, which are none at first.
  have hordered : Ordered g.dependencies ([] ++ other) := hother.ordered hkeys
  rw [hplaced]
  exact placeTasks_least g.tasks.length hordered hall hlength

/-! ### A graph with a choice -/

/-- A component that copies an input to an output. -/
def relay : Component :=
  { implementation := .container { image := "a", args := some [.inputPath "x", .outputPath "o"] }
    name := .str "a", description := .null, inputs := [{ name := "x" }], outputs :=
      [{ name := "o" }]
    metadata := [] }

/-- A task that runs a component with one argument. -/
def relayTask (component : Option Component) (argument : Argument) : GraphTask :=
  { reference := { name := .null, digest := .null, tag := .null, url := .null, spec := component }
    arguments := [("x", argument)], annotations := [] }

/-- A graph in which the second task of the dictionary needs the third. -/
def choiceGraph : Graph :=
  { tasks := [
      ("b", relayTask (some relay) (.taskOutput { task := "c", output := "o" })),
      ("c", relayTask (some relay) (.graphInput "y" .null)),
      ("a", relayTask (some relay) (.literal "1"))]
    outputValues := [("r", { task := "b", output := "o" })] }

/-- Its order is the least. -/
theorem choiceGraph_least : (Keyed.keys choiceGraph.tasks).Nodup ∧
    choiceGraph.order ["y"] = .ok ["a", "c", "b"] ∧ choiceGraph.Sorts ["a", "c", "b"] ∧
      (∀ other, choiceGraph.Sorts other →
        ["a", "c", "b"].map Text.codes ≤ other.map Text.codes) ∧
      choiceGraph.Leads ["y"] := by
  have hkeys : (Keyed.keys choiceGraph.tasks).Nodup := by
    decide
  have horder : (choiceGraph.order ["y"]).toOption = some ["a", "c", "b"] := by
    decide +kernel
  exact ⟨hkeys, toOption_eq_some.mp horder, order_least hkeys (toOption_eq_some.mp horder)⟩

end PipelineCompiler
