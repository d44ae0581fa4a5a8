import PipelineCompiler.Proofs.Graph.Planner

namespace PipelineCompiler

/-!
# What the order of tasks promises

* `closed_dependencies`, `order_eq` — the planner never misses an entry of its tables, and so the
  order of a graph is what can be placed;
* `Planned` — an order of tasks: every task once, every producer before those who need it, and no
  reference that leads nowhere;
* `order_planned` — the order of a graph is such an order;
* `placeTasks_all`, `Planned.exists_order` — where there is such an order, the graph has one;
* `Planned.output`, `Planned.input` — where the arguments of its tasks lead.
-/

/-! ### The tables of a graph -/

/-- The producers of the tasks of a graph. -/
theorem find?_dependencies (g : Graph) (id : String) :
    Keyed.find? g.dependencies id = (Keyed.find? g.tasks id).map GraphTask.producers :=
  Keyed.find?_map (fun _ (task : GraphTask) => task.producers) g.tasks id

/-- The tasks of a graph are those with producers. -/
theorem keys_dependencies (g : Graph) : Keyed.keys g.dependencies = Keyed.keys g.tasks := by
  simp [Graph.dependencies, Keyed.keys, Keyed.mapValues]

/-- An output that is not broken is one of a task. -/
theorem mem_keys_of_brokenOutput {g : Graph} {source : TaskOutput}
    (h : g.brokenOutput? source = none) : source.task ∈ Keyed.keys g.tasks := by
  unfold Graph.brokenOutput? at h
  split at h
  next => cases h
  next producer hproducer => exact Keyed.mem_keys_of_find? hproducer

/-- **The producers of tasks are tasks**, if nothing is at fault. -/
theorem closed_dependencies {g : Graph} {inputs : List String} (h : g.fault? inputs = none) :
    Planner.Closed g.dependencies := by
  constructor
  · intro id
    rw [Planner.producersOf, find?_dependencies]
    cases Keyed.find? g.tasks id with
    | none => exact List.nodup_nil
    | some task => exact nodup_of_ascending (sortedTexts_sorted _)
  · intro id p hp
    rw [Planner.producersOf, find?_dependencies] at hp
    rw [keys_dependencies]
    cases htask : Keyed.find? g.tasks id with
    | none => rw [htask] at hp; cases hp
    | some task =>
      rw [htask] at hp
      obtain ⟨argument, hargument, heq⟩ := List.mem_filterMap.mp (mem_sortedTexts.mp hp)
      -- the argument is one of a task without a fault
      unfold Graph.fault? at h
      dsimp only at h
      rw [Option.or_eq_none_iff, List.findSome?_eq_none_iff] at h
      have hnone := Option.map_eq_none_iff.mp (h.1 _ (Keyed.mem_of_find? htask))
      unfold Graph.taskFault? at hnone
      split at hnone
      next => cases hnone
      next =>
        rw [Option.map_eq_none_iff, List.findSome?_eq_none_iff] at hnone
        have hbroken := hnone argument hargument
        cases hsource : argument.2 with
        | literal _ => rw [hsource] at heq; cases heq
        | graphInput _ _ => rw [hsource] at heq; cases heq
        | taskOutput source =>
          rw [hsource] at heq hbroken
          obtain rfl := Option.some.inj heq
          exact mem_keys_of_brokenOutput hbroken

/-- All tasks are placed exactly if none is stuck. -/
theorem length_placedTasks_iff (g : Graph) :
    g.placedTasks.length = (Planner.counts g.dependencies).length ↔
      (g.stuckTasks g.placedTasks).isEmpty = true := by
  have hordered : Ordered g.dependencies g.placedTasks :=
    placeTasks_ordered _ (ordered_nil g.dependencies)
  have hkeys : ∀ id, id ∈ Keyed.keys (Planner.counts g.dependencies) ↔
    id ∈ Keyed.keys g.tasks := by
    intro id
    rw [← keys_dependencies, ← Keyed.has_iff_mem_keys, Keyed.has, Planner.counts,
      Keyed.find?_ofList_map fun id => ((Planner.producersOf g.dependencies id).length : Int)]
    split
    next h => simp [h]
    next h => simp [h]
  -- Placed tasks are different tasks of the graph, so counting them is enough to know whether some
  -- are left.
  have hsub : g.placedTasks.Subperm (Keyed.keys (Planner.counts g.dependencies)) := by
    refine List.subperm_of_subset hordered.nodup fun id hid => (hkeys id).mpr ?_
    rw [← keys_dependencies]
    exact hordered.keys id hid
  have hlength : (Keyed.keys (Planner.counts g.dependencies)).length =
      (Planner.counts g.dependencies).length := List.length_map _
  have hstuck : ∀ id, id ∈ g.stuckTasks g.placedTasks ↔
      id ∈ Keyed.keys g.tasks ∧ id ∉ g.placedTasks := by
    intro id
    rw [Graph.stuckTasks, mem_orderedTexts, List.mem_filter]
    simp
  rw [List.isEmpty_iff, List.eq_nil_iff_forall_not_mem, ← hlength]
  constructor
  · intro heq id hid
    obtain ⟨hkey, hleft⟩ := (hstuck id).mp hid
    exact hleft ((hsub.perm_of_length_le (le_of_eq heq.symm)).mem_iff.mpr ((hkeys id).mpr hkey))
  · intro hnone
    refine le_antisymm hsub.length_le (List.Subperm.length_le ?_)
    refine List.subperm_of_subset (Keyed.nodup_ofList _) fun id hid => ?_
    by_contra hleft
    exact hnone id ((hstuck id).mpr ⟨(hkeys id).mp hid, hleft⟩)

/-- **The order of a graph**, said without counts and tables: what can be placed, unless something
    is at fault or a task is stuck. -/
theorem order_eq (g : Graph) (inputs : List String) :
    g.order inputs =
      match g.fault? inputs with
      | some error => .error (.compilation error)
      | none =>
        if (g.stuckTasks g.placedTasks).isEmpty then .ok g.placedTasks
        else .error (.ofCause (.cycle (g.stuckTasks g.placedTasks))) := by
  unfold Graph.order
  -- The faults come first on both sides.  Without any, the planner runs with tables that tell what
  -- is placed.
  cases hfault : g.fault? inputs with
  | some error => rfl
  | none =>
    have hclosed := closed_dependencies hfault
    obtain ⟨planner, hstart, htells, hnone, hmissing⟩ := Planner.exists_start hclosed
    have hrun := htells.run hclosed g.tasks.length
    rw [hnone] at hrun
    have hplaced : placeTasks g.dependencies g.tasks.length [] = g.placedTasks := rfl
    dsimp only
    rw [hstart]
    show (planner.run g.tasks.length >>= _) = _
    rw [hrun, hplaced]
    show (if g.placedTasks.length = planner.missing.length then _ else _) = _
    rw [hmissing]
    exact if_congr (length_placedTasks_iff g) rfl rfl

/-! ### Orders of tasks -/

/-- What holds of the order of a graph with some inputs. -/
structure Planned (g : Graph) (inputs order : List String) : Prop where
  nodup : order.Nodup
  mem_iff : ∀ id, id ∈ order ↔ id ∈ Keyed.keys g.tasks
  before : Chained (fun earlier id => ∀ task, Keyed.find? g.tasks id = some task →
    ∀ p ∈ task.producers, p ∈ earlier) order
  specified : ∀ entry ∈ g.tasks, entry.2.reference.spec.isSome = true
  arguments : ∀ entry ∈ g.tasks, ∀ argument ∈ entry.2.arguments,
    g.brokenArgument? inputs argument.2 = none
  outputs : ∀ output ∈ g.outputValues, g.brokenOutput? output.2 = none

/-- **The order of a graph** has every task once, behind those that it needs, and there is one only
    if no reference leads nowhere. -/
theorem order_planned {g : Graph} {inputs order : List String}
    (h : g.order inputs = .ok order) : Planned g inputs order := by
  rw [order_eq] at h
  split at h
  next => cases h
  next hfault =>
  split at h
  next hstuck =>
    obtain rfl := Except.ok.inj h
    -- the order is what was placed, and nothing is stuck and nothing at fault
    have hordered : Ordered g.dependencies g.placedTasks :=
      placeTasks_ordered _ (ordered_nil g.dependencies)
    unfold Graph.fault? at hfault
    dsimp only at hfault
    rw [Option.or_eq_none_iff, List.findSome?_eq_none_iff] at hfault
    obtain ⟨htasks, houtputs⟩ := hfault
    have htask : ∀ entry ∈ g.tasks, g.taskFault? inputs entry.2 = none := fun entry hentry =>
      Option.map_eq_none_iff.mp (htasks entry hentry)
    refine ⟨hordered.nodup, fun id => ⟨fun hid => ?_, fun hid => ?_⟩,
      fun earlier id later heq task hfind => ?_, fun entry hentry => ?_,
      fun entry hentry argument hargument => ?_, fun output houtput => ?_⟩
    · rw [← keys_dependencies]
      exact hordered.keys id hid
    -- a task that was not placed would be stuck
    · by_contra hmissing
      rw [List.isEmpty_iff] at hstuck
      have hmem : id ∈ g.stuckTasks g.placedTasks := by
        unfold Graph.stuckTasks
        rw [mem_orderedTexts, List.mem_filter]
        exact ⟨hid, by simpa using hmissing⟩
      rw [hstuck] at hmem
      cases hmem
    · refine hordered.before earlier id later heq task.producers ?_
      rw [find?_dependencies, hfind]
      rfl
    · have hnone := htask entry hentry
      unfold Graph.taskFault? at hnone
      split at hnone
      · cases hnone
      next hspec => simpa [Option.isSome_iff_ne_none] using hspec
    · have hnone := htask entry hentry
      unfold Graph.taskFault? at hnone
      split at hnone
      · cases hnone
      next =>
        rw [Option.map_eq_none_iff, List.findSome?_eq_none_iff] at hnone
        exact hnone argument hargument
    · rw [Option.map_eq_none_iff, Graph.outputFault?, List.findSome?_eq_none_iff] at houtputs
      exact Option.map_eq_none_iff.mp (houtputs output houtput)
  next => cases h

/-! ### Graphs that have an order -/

/-- As long as something of an order is not placed, the first such task is ready. -/
theorem Ordered.exists_ready {dependencies : Keyed (List String)} {order placed : List String}
    (h : Ordered dependencies order) {id : String} (hid : id ∈ order) (hnew : id ∉ placed) :
    ∃ ready, ready ∈ readyTasks dependencies placed := by
  obtain ⟨ready, hready⟩ : ∃ ready, order.find? (fun id =>
    !placed.contains id) = some ready :=
    Option.isSome_iff_exists.mp (List.find?_isSome.mpr ⟨id, hid, by simpa using hnew⟩)
  obtain ⟨hmissing, before, after, rfl, hbefore⟩ := List.find?_eq_some_iff_append.mp hready
  have hmem : ready ∈ before ++ ready :: after := by simp
  obtain ⟨producers, hproducers⟩ := Keyed.exists_find?_of_mem_keys (h.keys ready hmem)
  refine ⟨ready, mem_readyTasks.mpr ⟨h.keys ready hmem, by simpa using hmissing, ?_⟩⟩
  rw [producersOf_eq hproducers]
  intro p hp
  simpa using hbefore p (h.before before ready after rfl producers hproducers p hp)

/-- **All tasks are placed** if they have an order, and there are turns enough. -/
theorem placeTasks_all {dependencies : Keyed (List String)} {order : List String}
    (horder : Ordered dependencies order)
    (hall : ∀ id ∈ Keyed.keys dependencies, id ∈ order) (count : Nat) {placed : List String}
    (h : Ordered dependencies placed) (hcount : order.length ≤ placed.length + count) :
    ∀ id ∈ order, id ∈ placeTasks dependencies count placed := by
  -- By induction on the turns: while a task of the order is left, the first of these is ready.
  induction count generalizing placed with
  | zero =>
    have hsub : placed.Subperm order :=
      List.subperm_of_subset h.nodup fun id hid => hall id (h.keys id hid)
    exact fun id hid => (hsub.perm_of_length_le hcount).mem_iff.mpr hid
  | succ count ih =>
    unfold placeTasks
    split
    next hnone =>
      intro id hid
      by_contra hnew
      obtain ⟨ready, hready⟩ := horder.exists_ready hid hnew
      rw [nextTask?_eq_none hnone] at hready
      cases hready
    next id hid =>
      refine ih (h.place (nextTask?_mem hid)) ?_
      rw [List.length_append, List.length_singleton]
      omega

variable {g : Graph} {inputs order : List String}

/-- Nothing is at fault in a planned graph. -/
theorem Planned.fault?_eq_none (h : Planned g inputs order) : g.fault? inputs = none := by
  have htasks : ∀ entry ∈ g.tasks, g.taskFault? inputs entry.2 = none := by
    intro entry hentry
    have hspec : entry.2.reference.spec.isNone = false :=
      Option.isNone_eq_false_iff.mpr (h.specified entry hentry)
    rw [Graph.taskFault?, hspec, if_neg Bool.false_ne_true, Option.map_eq_none_iff,
      List.findSome?_eq_none_iff]
    exact h.arguments entry hentry
  have houtputs : g.outputFault? = none :=
    List.findSome?_eq_none_iff.mpr fun output houtput =>
      Option.map_eq_none_iff.mpr (h.outputs output houtput)
  unfold Graph.fault?
  dsimp only
  rw [Option.or_eq_none_iff, List.findSome?_eq_none_iff, Option.map_eq_none_iff]
  exact ⟨fun entry hentry => Option.map_eq_none_iff.mpr (htasks entry hentry), houtputs⟩

/-- **A graph has an order** if its tasks can be put in one. -/
theorem Planned.exists_order (h : Planned g inputs order) :
    ∃ found, g.order inputs = .ok found := by
  have horder : Ordered g.dependencies order := by
    refine ⟨h.nodup, fun id hid => ?_, fun earlier id later heq producers hproducers => ?_⟩
    · rw [keys_dependencies]
      exact (h.mem_iff id).mp hid
    · rw [find?_dependencies] at hproducers
      obtain ⟨task, htask, rfl⟩ := Option.map_eq_some_iff.mp hproducers
      exact h.before earlier id later heq task htask
  have hall : ∀ id ∈ Keyed.keys g.dependencies, id ∈ order := fun id hid =>
    (h.mem_iff id).mpr (keys_dependencies g ▸ hid)
  have hlength : order.length ≤ g.tasks.length := by
    have hsub : order.Subperm (Keyed.keys g.tasks) :=
      List.subperm_of_subset h.nodup fun id hid => (h.mem_iff id).mp hid
    have hle := hsub.length_le
    rwa [Keyed.keys, List.length_map] at hle
  -- The tasks of the given order show that there is always one that is ready, so all of them are
  -- placed.
  have hplaced := placeTasks_all horder hall g.tasks.length (ordered_nil _)
    (by rwa [List.length_nil, Nat.zero_add])
  have hstuck : (g.stuckTasks g.placedTasks).isEmpty = true := by
    rw [List.isEmpty_iff, List.eq_nil_iff_forall_not_mem]
    intro id hid
    unfold Graph.stuckTasks at hid
    rw [mem_orderedTexts, List.mem_filter] at hid
    have hmem := hplaced id ((h.mem_iff id).mpr hid.1)
    simp [Graph.placedTasks, hmem] at hid
  rw [order_eq, h.fault?_eq_none]
  dsimp only
  rw [if_pos hstuck]
  exact ⟨_, rfl⟩

/-! ### References in a planned graph -/

/-- An output of a task that is not broken is declared by the component of the task. -/
theorem Planned.declares (h : Planned g inputs order) {source : TaskOutput}
    (hbroken : g.brokenOutput? source = none) :
    ∃ producer component, g.task? source.task = some producer ∧
      producer.reference.spec = some component ∧ source.output ∈ component.outputNames := by
  unfold Graph.brokenOutput? at hbroken
  split at hbroken
  next => cases hbroken
  next producer hproducer =>
    have hspecified := h.specified _ (Keyed.mem_of_find? hproducer)
    obtain ⟨component, hspec⟩ := Option.isSome_iff_exists.mp hspecified
    rw [hspec] at hbroken
    dsimp only at hbroken
    split at hbroken
    next hmem => exact ⟨producer, component, hproducer, hspec, hmem⟩
    next => cases hbroken

variable {id : String} {task : GraphTask} {entry : String × Argument}

/-- **What a task gets from another task** is declared there. -/
theorem Planned.output (h : Planned g inputs order) (htask : g.task? id = some task)
    (hentry : entry ∈ task.arguments) {source : TaskOutput} (heq : entry.2 = .taskOutput source) :
    ∃ producer component, g.task? source.task = some producer ∧
      producer.reference.spec = some component ∧ source.output ∈ component.outputNames := by
  have hbroken := h.arguments _ (Keyed.mem_of_find? htask) entry hentry
  rw [heq] at hbroken
  exact h.declares hbroken

/-- What a task gets from the graph is an input of the graph. -/
theorem Planned.input (h : Planned g inputs order) (htask : g.task? id = some task)
    (hentry : entry ∈ task.arguments) {name : String} {type : Value}
    (heq : entry.2 = .graphInput name type) : name ∈ inputs := by
  have hbroken := h.arguments _ (Keyed.mem_of_find? htask) entry hentry
  rw [heq, Graph.brokenArgument?] at hbroken
  split at hbroken
  next hmem => exact hmem
  next => cases hbroken

/-- A task that something is gotten from is a producer. -/
theorem mem_producers (hentry : entry ∈ task.arguments) {source : TaskOutput}
    (heq : entry.2 = .taskOutput source) : source.task ∈ task.producers := by
  unfold GraphTask.producers
  rw [mem_sortedTexts, List.mem_filterMap]
  exact ⟨entry, hentry, by rw [heq]; rfl⟩

end PipelineCompiler
