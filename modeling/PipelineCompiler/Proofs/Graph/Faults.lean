import Mathlib.Data.Fintype.Order
import Mathlib.Logic.Relation
import Mathlib.Order.WellFounded
import PipelineCompiler.Proofs.Graph.Least

namespace PipelineCompiler

/-!
# Graphs without an order

A graph has no order when something in it leads nowhere, or else when its tasks need one another in
a circle.

* `GraphPart`, `Graph.parts` — what can be at fault in a graph, in the order in which it is looked
  at;
* `Graph.Lacks`, `Graph.Misleads`, `GraphPart.Fails` — what is at fault, and how it is reported;
* `fault?_eq_some_iff` — the fault of a graph is that of its first part at fault;
* `Graph.Needs`, `Graph.NeedsCycle` — the tasks that lie on a cycle or need one that does;
* `run_add` — the planner has turns enough;
* `mem_stuckTasks_iff` — these are the tasks that cannot be placed;
* `Graph.Verdict`, `order_verdict` — which graphs have an order, and what is said about the
  others.

Nothing is ready once all turns are taken, so every task that is left needs another one that is
left.  There are finitely many of them, so each leads to a cycle; and no placed task does, since
what a placed task needs stands before it.
-/

/-! ### What can be at fault -/

/-- A part of a graph that can be at fault. -/
inductive GraphPart where
  | component (task : String) (reference : ComponentReference)
  | argument (task : String) (argument : Argument)
  | output (name : String) (source : TaskOutput)

/-- The parts of a task: its component, and then its arguments. -/
def taskParts (entry : String × GraphTask) : List GraphPart :=
  .component entry.1 entry.2.reference ::
    entry.2.arguments.map fun argument => .argument entry.1 argument.2

/-- The parts of a graph: those of its tasks, and then its outputs. -/
def Graph.parts (g : Graph) : List GraphPart :=
  g.tasks.flatMap taskParts ++ g.outputValues.map fun output => .output output.1 output.2

/-- A graph lacks an output of a task: it has no such task, or it knows the outputs of the task, and
    this is none of them. -/
inductive Graph.Lacks (g : Graph) : TaskOutput → BrokenReference → Prop
  | task {source : TaskOutput} (absent : source.task ∉ Keyed.keys g.tasks) :
    Lacks g source (.task source.task source.output)
  | output {source : TaskOutput} {producer : GraphTask} {component : Component}
    (present : g.task? source.task = some producer)
    (resolved : producer.reference.spec = some component)
    (undeclared : source.output ∉ component.outputNames) :
    Lacks g source (.taskOutput source.task source.output)

/-- An argument that leads to no input of the graph, or to no output of a task. -/
inductive Graph.Misleads (g : Graph) (inputs : List String) : Argument → BrokenReference → Prop
  | graphInput {input : String} {type : Value} (undeclared : input ∉ inputs) :
    Misleads g inputs (.graphInput input type) (.graphInput input)
  | taskOutput {source : TaskOutput} {broken : BrokenReference} (lacks : g.Lacks source broken) :
    Misleads g inputs (.taskOutput source) broken

/-- A part at fault, and the error that reports it. -/
inductive GraphPart.Fails (g : Graph) (inputs : List String) :
    GraphPart → CompilationError → Prop
  | component {task : String} {reference : ComponentReference} (absent : reference.spec = none) :
    Fails g inputs (.component task reference)
      { cause := .unresolvedReference reference.name reference.url, taskPath := [task] }
  | argument {task : String} {argument : Argument} {broken : BrokenReference}
    (misleads : g.Misleads inputs argument broken) :
    Fails g inputs (.argument task argument) { cause := .broken broken, taskPath := [task] }
  | output {name : String} {source : TaskOutput} {broken : BrokenReference}
    (lacks : g.Lacks source broken) :
    Fails g inputs (.output name source) { cause := .brokenOutput name broken }

/-- A part that is at fault somehow. -/
def GraphPart.IsFaulty (g : Graph) (inputs : List String) (part : GraphPart) : Prop :=
  ∃ error, part.Fails g inputs error

variable {g : Graph} {inputs : List String} {error : CompilationError}

/-- An output is looked up in vain where the graph lacks it. -/
theorem brokenOutput?_eq_some {source : TaskOutput} {broken : BrokenReference} :
    g.brokenOutput? source = some broken ↔ g.Lacks source broken := by
  unfold Graph.brokenOutput?
  -- Both sides look at the task, then at its component, then at the outputs of this.
  constructor
  · intro h
    split at h
    next hnone =>
      obtain rfl := Option.some.inj h
      exact .task (Keyed.find?_eq_none_iff.mp hnone)
    next producer hproducer =>
      split at h
      next => cases h
      next component hcomponent =>
        split at h
        next => cases h
        next houtput =>
          obtain rfl := Option.some.inj h
          exact .output hproducer hcomponent houtput
  · intro h
    cases h with
    | task absent =>
      have hnone : g.task? source.task = none := Keyed.find?_eq_none_iff.mpr absent
      rw [hnone]
    | output present resolved undeclared =>
      rw [present]
      dsimp only
      rw [resolved]
      exact if_neg undeclared

/-- An argument is looked up in vain where it misleads. -/
theorem brokenArgument?_eq_some {argument : Argument} {broken : BrokenReference} :
    g.brokenArgument? inputs argument = some broken ↔ g.Misleads inputs argument broken := by
  constructor
  · intro h
    -- Literals are always in order, inputs have to be declared, and outputs are looked up.
    cases argument with
    | literal text => cases h
    | graphInput input type =>
      rw [Graph.brokenArgument?] at h
      split at h
      next => cases h
      next hinput =>
        obtain rfl := Option.some.inj h
        exact .graphInput hinput
    | taskOutput source => exact .taskOutput (brokenOutput?_eq_some.mp h)
  · intro h
    cases h with
    | graphInput undeclared => exact if_neg undeclared
    | taskOutput lacks => exact brokenOutput?_eq_some.mpr lacks

/-- The error that reports a part. -/
def GraphPart.fault? (g : Graph) (inputs : List String) : GraphPart → Option CompilationError
  | .component task reference =>
    if reference.spec.isNone then
      some { cause := .unresolvedReference reference.name reference.url, taskPath := [task] }
    else none
  | .argument task bound =>
    (g.brokenArgument? inputs bound).map fun broken =>
      { cause := .broken broken, taskPath := [task] }
  | .output name source =>
    (g.brokenOutput? source).map fun broken => { cause := .brokenOutput name broken }

/-- A part is reported where it is at fault. -/
theorem GraphPart.fault?_eq_some {part : GraphPart} :
    part.fault? g inputs = some error ↔ part.Fails g inputs error := by
  constructor
  · intro h
    -- There are three sorts of parts, and each has one fault.
    cases part with
    | component task reference =>
      rw [GraphPart.fault?] at h
      split at h
      next habsent =>
        obtain rfl := Option.some.inj h
        exact .component (Option.isNone_iff_eq_none.mp habsent)
      next => cases h
    | argument task argument =>
      obtain ⟨broken, hbroken, rfl⟩ := Option.map_eq_some_iff.mp h
      exact .argument (brokenArgument?_eq_some.mp hbroken)
    | output name source =>
      obtain ⟨broken, hbroken, rfl⟩ := Option.map_eq_some_iff.mp h
      exact .output (brokenOutput?_eq_some.mp hbroken)
  · intro h
    cases h with
    | component absent => exact if_pos (Option.isNone_iff_eq_none.mpr absent)
    | argument misleads =>
      exact Option.map_eq_some_iff.mpr ⟨_, brokenArgument?_eq_some.mpr misleads, rfl⟩
    | output lacks => exact Option.map_eq_some_iff.mpr ⟨_, brokenOutput?_eq_some.mpr lacks, rfl⟩

/-- A part is not reported where it is not at fault. -/
theorem GraphPart.fault?_eq_none {part : GraphPart} :
    part.fault? g inputs = none ↔ ¬ part.IsFaulty g inputs := by
  rw [Option.eq_none_iff_forall_ne_some]
  simp only [GraphPart.IsFaulty, not_exists, ne_eq, GraphPart.fault?_eq_some]

/-- The fault of a task is that of its first part. -/
theorem findSome?_taskParts (entry : String × GraphTask) :
    (taskParts entry).findSome? (GraphPart.fault? g inputs) =
      (g.taskFault? inputs entry.2).map fun cause => { cause, taskPath := [entry.1] } := by
  rw [taskParts, List.findSome?_cons, Graph.taskFault?, GraphPart.fault?]
  by_cases habsent : entry.2.reference.spec.isNone = true
  · rw [if_pos habsent, if_pos habsent, Option.map_some]
  · rw [if_neg habsent, if_neg habsent]
    show List.findSome? _ _ = _
    rw [List.findSome?_map, Option.map_map, List.map_findSome?]
    rfl

/-- The fault of a graph is that of its first part. -/
theorem fault?_eq_findSome? :
    g.fault? inputs = g.parts.findSome? (GraphPart.fault? g inputs) := by
  have htasks : ∀ tasks : List (String × GraphTask),
      (tasks.flatMap taskParts).findSome? (GraphPart.fault? g inputs) =
        tasks.findSome? fun entry =>
          (g.taskFault? inputs entry.2).map fun cause => { cause, taskPath := [entry.1] } := by
    intro tasks
    -- By induction on the tasks, the first fault of which counts.
    induction tasks with
    | nil => rfl
    | cons entry tasks ih =>
      rw [List.flatMap_cons, List.findSome?_append, findSome?_taskParts, ih, List.findSome?_cons]
      cases g.taskFault? inputs entry.2 with
      | none => rfl
      | some cause => rfl
  have houtputs : (g.outputFault?.map fun cause => ({ cause } : CompilationError)) =
      (g.outputValues.map fun output => GraphPart.output output.1 output.2).findSome?
        (GraphPart.fault? g inputs) := by
    rw [Graph.outputFault?, List.findSome?_map, List.map_findSome?]
    congr 1
    funext output
    simp only [Function.comp_apply, GraphPart.fault?, Option.map_map]
    rfl
  rw [Graph.parts, List.findSome?_append, htasks, ← houtputs]
  rfl

/-- **The fault of a graph** is that of its first part at fault. -/
theorem fault?_eq_some_iff :
    g.fault? inputs = some error ↔
      ∃ before part after, g.parts = before ++ part :: after ∧ part.Fails g inputs error ∧
        ∀ other ∈ before, ¬ other.IsFaulty g inputs := by
  rw [fault?_eq_findSome?, List.findSome?_eq_some_iff]
  simp only [GraphPart.fault?_eq_some, GraphPart.fault?_eq_none]

/-- A graph without a fault has no part at fault. -/
theorem fault?_eq_none_iff :
    g.fault? inputs = none ↔ ∀ part ∈ g.parts, ¬ part.IsFaulty g inputs := by
  rw [fault?_eq_findSome?, List.findSome?_eq_none_iff]
  simp only [GraphPart.fault?_eq_none]

/-- An error that reports a part is about a component that is not there, or about a reference that
    leads nowhere. -/
theorem GraphPart.Fails.kind {part : GraphPart} (h : part.Fails g inputs error) :
    error.diagnosis.kind = .unresolvedReference ∨ error.diagnosis.kind = .danglingReference := by
  cases h with
  | component => exact .inl rfl
  | argument => exact .inr rfl
  | output => exact .inr rfl

/-! ### Tasks that need a cycle -/

/-- A task needs a task when it needs one of its outputs. -/
def Graph.Needs (g : Graph) (id producer : String) : Prop :=
  ∃ producers, Keyed.find? g.dependencies id = some producers ∧ producer ∈ producers

/-- A task on a cycle needs itself in the end. -/
def Graph.OnCycle (g : Graph) (id : String) : Prop := Relation.TransGen g.Needs id id

/-- A task that lies on a cycle, or needs one that does in the end. -/
def Graph.NeedsCycle (g : Graph) (id : String) : Prop :=
  ∃ other, Relation.ReflTransGen g.Needs id other ∧ g.OnCycle other

/-- What needs a task that needs a cycle needs it too. -/
theorem Graph.NeedsCycle.head {id producer : String} (h : g.NeedsCycle producer)
    (hneeds : g.Needs id producer) : g.NeedsCycle id := by
  obtain ⟨other, hother, hcycle⟩ := h
  exact ⟨other, .head hneeds hother, hcycle⟩

/-- A task that something is needed from is there, if nothing is at fault. -/
theorem Graph.Needs.mem_keys {id producer : String} (h : g.Needs id producer)
    (hsound : ∀ part ∈ g.parts, ¬ part.IsFaulty g inputs) :
    producer ∈ Keyed.keys g.tasks := by
  obtain ⟨producers, hproducers, hmem⟩ := h
  rw [find?_dependencies] at hproducers
  obtain ⟨task, htask, rfl⟩ := Option.map_eq_some_iff.mp hproducers
  rw [GraphTask.producers, mem_sortedTexts, List.mem_filterMap] at hmem
  obtain ⟨entry, hentry, hproducer⟩ := hmem
  have hpart : GraphPart.argument id entry.2 ∈ g.parts := by
    refine List.mem_append_left _ (List.mem_flatMap.mpr ⟨_, Keyed.mem_of_find? htask, ?_⟩)
    exact List.mem_cons_of_mem _ (List.mem_map_of_mem hentry)
  by_contra habsent
  apply hsound _ hpart
  -- Only an argument that is an output of a task needs another task.
  cases hargument : entry.2 with
  | literal text =>
    rw [hargument] at hproducer
    cases hproducer
  | graphInput input type =>
    rw [hargument] at hproducer
    cases hproducer
  | taskOutput source =>
    rw [hargument] at hproducer
    obtain rfl := Option.some.inj hproducer
    exact ⟨_, .argument (.taskOutput (.task habsent))⟩

/-- What a task in order needs stands before it. -/
theorem Ordered.idxOf_lt {order : List String} (h : Ordered g.dependencies order)
    {id producer : String} (hid : id ∈ order) (hneeds : g.Needs id producer) :
    producer ∈ order ∧ order.idxOf producer < order.idxOf id := by
  obtain ⟨producers, hproducers, hmem⟩ := hneeds
  -- The order is cut at the task: what it needs stands in the first part, and it does not.
  obtain ⟨earlier, later, rfl⟩ := List.append_of_mem hid
  have hearlier : producer ∈ earlier := h.before earlier id later rfl producers hproducers _ hmem
  have hnew : id ∉ earlier := by
    intro hid'
    exact (List.nodup_append.mp h.nodup).2.2 id hid' id List.mem_cons_self rfl
  have hlt : earlier.idxOf producer < earlier.length := List.idxOf_lt_length_iff.mpr hearlier
  refine ⟨List.mem_append_left _ hearlier, ?_⟩
  rw [List.idxOf_append_of_mem hearlier, List.idxOf_append_of_notMem hnew]
  omega

/-- A task in order needs no cycle: whatever it needs stands further and further to the front. -/
theorem Ordered.not_needsCycle {order : List String} (h : Ordered g.dependencies order)
    {id : String} (hid : id ∈ order) : ¬ g.NeedsCycle id := by
  rintro ⟨other, hother, hcycle⟩
  have hmem : other ∈ order := by
    clear hcycle
    induction hother with
    | refl => exact hid
    | tail _ hneeds ih => exact (h.idxOf_lt ih hneeds).1
  -- On a cycle, the task would stand before itself.
  have hback : ∀ last, Relation.TransGen g.Needs other last →
      last ∈ order ∧ order.idxOf last < order.idxOf other := by
    intro last hlast
    induction hlast with
    | single hneeds => exact h.idxOf_lt hmem hneeds
    | tail _ hneeds ih =>
      have hstep := h.idxOf_lt ih.1 hneeds
      exact ⟨hstep.1, hstep.2.trans ih.2⟩
  exact lt_irrefl _ (hback other hcycle).2

/-- Nothing is ready any more when there were turns enough. -/
theorem readyTasks_placeTasks {dependencies : Keyed (List String)} (count : Nat)
    {placed : List String} (h : Ordered dependencies placed)
    (hcount : (Keyed.keys dependencies).length ≤ placed.length + count) :
    readyTasks dependencies (placeTasks dependencies count placed) = [] := by
  -- By induction on the turns.  When none is left, as many tasks are placed as there are.
  induction count generalizing placed with
  | zero =>
    have hsub : placed.Subperm (Keyed.keys dependencies) := List.subperm_of_subset h.nodup h.keys
    apply readyTasks_eq_nil
    intro id hid
    exact (hsub.perm_of_length_le hcount).mem_iff.mpr hid
  | succ count ih =>
    unfold placeTasks
    split
    next hnone => exact nextTask?_eq_none hnone
    next id hid =>
      refine ih (h.place (nextTask?_mem hid)) ?_
      rw [List.length_append, List.length_singleton]
      omega

/-- More turns than there are tasks change nothing. -/
theorem placeTasks_add {dependencies : Keyed (List String)} (count more : Nat)
    {placed : List String} (h : Ordered dependencies placed)
    (hcount : (Keyed.keys dependencies).length ≤ placed.length + count) :
    placeTasks dependencies (count + more) placed = placeTasks dependencies count placed := by
  -- By induction on the turns: as long as they last both places go on alike, and when they run out
  -- nothing is ready.
  induction count generalizing placed with
  | zero =>
    have hnone : nextTask? dependencies placed = none := by
      have hready := readyTasks_placeTasks 0 h hcount
      rw [nextTask?, show readyTasks dependencies placed = [] from hready]
      rfl
    rw [Nat.zero_add]
    cases more with
    | zero => rfl
    | succ more =>
      unfold placeTasks
      rw [hnone]
  | succ count ih =>
    rw [Nat.succ_add]
    unfold placeTasks
    split
    next => rfl
    next id hid =>
      refine ih (h.place (nextTask?_mem hid)) ?_
      rw [List.length_append, List.length_singleton]
      omega

/-- **The planner stops by itself**: it has as many turns as there are tasks, and more of them would
    change nothing. -/
theorem run_add {planner : Planner} (hfault : g.fault? inputs = none)
    (hstart : Planner.start g.dependencies = .ok planner) (more : Nat) :
    planner.run (g.tasks.length + more) = planner.run g.tasks.length := by
  have hclosed := closed_dependencies hfault
  obtain ⟨other, hother, htells, hnone, -⟩ := Planner.exists_start hclosed
  obtain rfl := Except.ok.inj (hstart.symm.trans hother)
  have hcount : (Keyed.keys g.dependencies).length ≤ planner.placed.length + g.tasks.length := by
    rw [keys_dependencies, Keyed.keys, List.length_map]
    exact Nat.le_add_left _ _
  rw [htells.run hclosed, htells.run hclosed, placeTasks_add _ more htells.ordered hcount]

/-- The placed tasks of a graph are in order. -/
theorem placedTasks_ordered (g : Graph) : Ordered g.dependencies g.placedTasks :=
  placeTasks_ordered _ (ordered_nil g.dependencies)

/-- A task that is left needs another one that is left. -/
theorem exists_needs_of_not_placed (hsound : ∀ part ∈ g.parts, ¬ part.IsFaulty g inputs)
    {id : String} (hid : id ∈ Keyed.keys g.tasks) (hleft : id ∉ g.placedTasks) :
    ∃ producer ∈ Keyed.keys g.tasks, producer ∉ g.placedTasks ∧ g.Needs id producer := by
  have hnone : readyTasks g.dependencies g.placedTasks = [] := by
    apply readyTasks_placeTasks _ (ordered_nil g.dependencies)
    rw [keys_dependencies, Keyed.keys, List.length_map, List.length_nil, Nat.zero_add]
  have hkey : id ∈ Keyed.keys g.dependencies := by
    rw [keys_dependencies]
    exact hid
  obtain ⟨producers, hproducers⟩ := Keyed.exists_find?_of_mem_keys hkey
  by_contra hall
  -- otherwise all its producers are placed, and it is ready
  have hready : id ∈ readyTasks g.dependencies g.placedTasks := by
    refine mem_readyTasks.mpr ⟨hkey, hleft, fun p hp => ?_⟩
    rw [producersOf_eq hproducers] at hp
    by_contra hp'
    have hneeds : g.Needs id p := ⟨producers, hproducers, hp⟩
    exact hall ⟨p, hneeds.mem_keys hsound, hp', hneeds⟩
  rw [hnone] at hready
  cases hready

/-- A task that is left needs a cycle: of finitely many tasks that do not, one would need none of
    the others. -/
theorem needsCycle_of_not_placed (hsound : ∀ part ∈ g.parts, ¬ part.IsFaulty g inputs)
    {id : String} (hid : id ∈ Keyed.keys g.tasks) (hleft : id ∉ g.placedTasks) :
    g.NeedsCycle id := by
  by_contra hfree
  -- The tasks that are left and need no cycle are ordered by need, and finitely many, so one of
  -- them needs none of the others.
  let left : Set String :=
    {id | id ∈ Keyed.keys g.tasks ∧ id ∉ g.placedTasks ∧ ¬ g.NeedsCycle id}
  have hfinite : Finite left :=
    Set.Finite.subset (List.finite_toSet (Keyed.keys g.tasks)) fun _ h => h.1
  let later : left → left → Prop := fun x y => Relation.TransGen g.Needs y.1 x.1
  have htrans : IsTrans left later := ⟨fun _ _ _ hxy hyz => hyz.trans hxy⟩
  have hirrefl : Std.Irrefl later := ⟨fun x hx => x.2.2.2 ⟨x.1, .refl, hx⟩⟩
  have hwf : WellFounded later := Finite.wellFounded_of_trans_of_irrefl later
  obtain ⟨⟨last, hkey, hlast, hlastFree⟩, -, hmin⟩ :=
    hwf.has_min Set.univ ⟨⟨id, hid, hleft, hfree⟩, trivial⟩
  -- It needs a task that is left, though, which would need a cycle only if it did so itself.
  obtain ⟨producer, hproducer, hproducerLeft, hneeds⟩ :=
    exists_needs_of_not_placed hsound hkey hlast
  have hproducerFree : ¬ g.NeedsCycle producer := fun h => hlastFree (h.head hneeds)
  exact hmin ⟨producer, hproducer, hproducerLeft, hproducerFree⟩ trivial (.single hneeds)

/-- **The tasks that cannot be placed** are those that lie on a cycle or need one that does, if
    nothing is at fault. -/
theorem mem_stuckTasks_iff (hsound : ∀ part ∈ g.parts, ¬ part.IsFaulty g inputs)
    {id : String} :
    id ∈ g.stuckTasks g.placedTasks ↔ g.NeedsCycle id := by
  rw [Graph.stuckTasks, mem_orderedTexts, List.mem_filter]
  simp only [Bool.not_eq_true', List.contains_eq_mem, decide_eq_false_iff_not]
  constructor
  · rintro ⟨hid, hleft⟩
    exact needsCycle_of_not_placed hsound hid hleft
  · intro h
    refine ⟨?_, fun hplaced => (placedTasks_ordered g).not_needsCycle hplaced h⟩
    -- a task that needs anything is one of the graph
    have hneeds : ∃ producer, g.Needs id producer := by
      obtain ⟨other, hother, hcycle⟩ := h
      rcases Relation.ReflTransGen.cases_head hother with rfl | ⟨producer, hneeds, -⟩
      · obtain ⟨producer, hneeds, -⟩ := Relation.TransGen.head'_iff.mp hcycle
        exact ⟨producer, hneeds⟩
      · exact ⟨producer, hneeds⟩
    obtain ⟨producer, producers, hproducers, -⟩ := hneeds
    rw [← keys_dependencies]
    exact Keyed.mem_keys_of_find? hproducers

/-- The tasks that cannot be placed are reported in ascending order. -/
theorem stuckTasks_sorted (hkeys : (Keyed.keys g.tasks).Nodup) (placed : List String) :
    (g.stuckTasks placed).Pairwise fun s t => Text.codes s < Text.codes t :=
  orderedTexts_sorted (hkeys.filter _)

/-! ### The verdict on a graph -/

/-- What is said about a graph with some inputs. -/
structure Graph.Verdict (g : Graph) (inputs : List String) : Prop where
  /-- A graph is rejected for a component that is not there or a reference that leads nowhere
      exactly if it has such a part. -/
  rejected : (∃ error, g.order inputs = .error (.compilation error) ∧
      (error.diagnosis.kind = .unresolvedReference ∨
        error.diagnosis.kind = .danglingReference)) ↔
    ∃ part ∈ g.parts, part.IsFaulty g inputs
  /-- The first of these parts is reported. -/
  first : ∀ before part after error, g.parts = before ++ part :: after →
    (∀ other ∈ before, ¬ other.IsFaulty g inputs) → part.Fails g inputs error →
      g.order inputs = .error (.compilation error)
  /-- Any other graph is rejected for a cycle exactly if it has one. -/
  cyclic : (∀ part ∈ g.parts, ¬ part.IsFaulty g inputs) →
    ((∃ error, g.order inputs = .error (.compilation error) ∧
      error.diagnosis.kind = .cyclicGraph) ↔ ∃ id, g.OnCycle id)
  /-- The report on a cycle lists the tasks that lie on one or need one that does. -/
  tasks : (∀ part ∈ g.parts, ¬ part.IsFaulty g inputs) → ∀ error,
    g.order inputs = .error (.compilation error) →
      ∃ tasks, error.diagnosis.details = [("tasks", .ofTexts tasks)] ∧
        (tasks.Pairwise fun s t => Text.codes s < Text.codes t) ∧
          ∀ id, id ∈ tasks ↔ g.NeedsCycle id
  /-- Every other graph has an order. -/
  ordered : (∀ part ∈ g.parts, ¬ part.IsFaulty g inputs) → (¬ ∃ id, g.OnCycle id) →
    ∃ order, g.order inputs = .ok order

/-- A graph at fault is rejected for its fault. -/
theorem order_of_fault (h : g.fault? inputs = some error) :
    g.order inputs = .error (.compilation error) := by
  rw [order_eq, h]

/-- A graph without a fault is rejected for the tasks that cannot be placed. -/
theorem order_of_sound (h : g.fault? inputs = none) :
    g.order inputs = .ok g.placedTasks ∧ g.stuckTasks g.placedTasks = [] ∨
      g.order inputs = .error (.ofCause (.cycle (g.stuckTasks g.placedTasks))) ∧
        g.stuckTasks g.placedTasks ≠ [] := by
  rw [order_eq, h]
  dsimp only
  by_cases hstuck : g.stuckTasks g.placedTasks = []
  · left
    rw [hstuck]
    exact ⟨rfl, rfl⟩
  · right
    rw [if_neg fun hempty => hstuck (List.isEmpty_iff.mp hempty)]
    exact ⟨rfl, hstuck⟩

/-- There is a cycle where a task needs one. -/
theorem exists_onCycle_iff (hsound : ∀ part ∈ g.parts, ¬ part.IsFaulty g inputs) :
    (∃ id, g.OnCycle id) ↔ g.stuckTasks g.placedTasks ≠ [] := by
  constructor
  · rintro ⟨id, hid⟩
    exact List.ne_nil_of_mem ((mem_stuckTasks_iff hsound).mpr ⟨id, .refl, hid⟩)
  · intro hstuck
    obtain ⟨id, hid⟩ := List.exists_mem_of_ne_nil _ hstuck
    obtain ⟨other, -, hcycle⟩ := (mem_stuckTasks_iff hsound).mp hid
    exact ⟨other, hcycle⟩

/-- **Which graphs have an order.**  If the ids of the tasks are different, a graph is rejected for
    its first part at fault, if there is one, and otherwise for its cycles, if there are any; and it
    has an order if there are none. -/
theorem order_verdict (hkeys : (Keyed.keys g.tasks).Nodup) : g.Verdict inputs where
  rejected := by
    -- A graph with an order or with cycles has no part at fault, and a fault is reported before any
    -- task is placed.
    constructor
    · rintro ⟨error, herror, hkind⟩
      by_contra hsound
      have hnone : g.fault? inputs = none := by
        apply fault?_eq_none_iff.mpr
        intro part hpart hfaulty
        exact hsound ⟨part, hpart, hfaulty⟩
      rcases order_of_sound hnone with ⟨horder, -⟩ | ⟨horder, -⟩
      · rw [horder] at herror
        cases herror
      · rw [horder] at herror
        obtain rfl : _ = error := Failure.compilation.inj (Except.error.inj herror)
        rcases hkind with hkind | hkind <;> cases hkind
    · rintro ⟨part, hpart, hfaulty⟩
      cases hfault : g.fault? inputs with
      | none => exact absurd hfaulty (fault?_eq_none_iff.mp hfault part hpart)
      | some error =>
        obtain ⟨_, first, _, -, hfails, -⟩ := fault?_eq_some_iff.mp hfault
        exact ⟨error, order_of_fault hfault, hfails.kind⟩
  first before part after error hparts hbefore hfails :=
    order_of_fault (fault?_eq_some_iff.mpr ⟨before, part, after, hparts, hfails, hbefore⟩)
  cyclic hsound := by
    rw [exists_onCycle_iff hsound]
    rcases order_of_sound (fault?_eq_none_iff.mpr hsound)
      with ⟨horder, hstuck⟩ | ⟨horder, hstuck⟩
    · rw [horder]
      simp [hstuck]
    · rw [horder]
      exact ⟨fun _ => hstuck, fun _ => ⟨_, rfl, rfl⟩⟩
  tasks hsound error herror := by
    rcases order_of_sound (fault?_eq_none_iff.mpr hsound) with ⟨horder, -⟩ | ⟨horder, -⟩
    · rw [horder] at herror
      cases herror
    · rw [horder] at herror
      obtain rfl : _ = error := Failure.compilation.inj (Except.error.inj herror)
      exact ⟨_, rfl, stuckTasks_sorted hkeys _, fun id => mem_stuckTasks_iff hsound⟩
  ordered hsound hacyclic := by
    rw [exists_onCycle_iff hsound] at hacyclic
    rcases order_of_sound (fault?_eq_none_iff.mpr hsound) with ⟨horder, -⟩ | ⟨-, hstuck⟩
    · exact ⟨_, horder⟩
    · exact absurd hstuck hacyclic

/-! ### A graph with a cycle -/

/-- A graph in which two tasks need each other, and a third one needs one of them. -/
def knotGraph : Graph :=
  { tasks := [
      ("c", relayTask (some relay) (.taskOutput { task := "b", output := "o" })),
      ("b", relayTask (some relay) (.taskOutput { task := "a", output := "o" })),
      ("a", relayTask (some relay) (.taskOutput { task := "b", output := "o" })),
      ("d", relayTask (some relay) (.graphInput "y" .null))]
    outputValues := [("r", { task := "d", output := "o" })] }

/-- It is sound, and rejected for its cycle. -/
theorem knotGraph_verdict : (Keyed.keys knotGraph.tasks).Nodup ∧
    knotGraph.order ["y"] = .error (.ofCause (.cycle ["a", "b", "c"])) ∧
      knotGraph.Verdict ["y"] := by
  have hkeys : (Keyed.keys knotGraph.tasks).Nodup := by
    decide
  have hsound : knotGraph.fault? ["y"] = none := rfl
  have hstuck : knotGraph.stuckTasks knotGraph.placedTasks = ["a", "b", "c"] := by
    decide +kernel
  refine ⟨hkeys, ?_, order_verdict hkeys⟩
  rcases order_of_sound hsound with ⟨-, hnone⟩ | ⟨horder, -⟩
  · rw [hstuck] at hnone
    cases hnone
  · rw [horder, hstuck]

end PipelineCompiler
