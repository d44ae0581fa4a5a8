import PipelineCompiler.Component.Basic
import PipelineCompiler.Proofs.Component.Flat
import PipelineCompiler.Proofs.Component.Loaded

namespace PipelineCompiler

/-!
# What components need

Whether a component is in order can be said at any depth and without any target: what is read in a
graph has to be bound there, or it is needed by the graph itself.

* `Component.needs`, `GraphTask.needs` — the inputs that a component needs, and those of the graph
  around it that a task needs;
* `needs_container`, `needs_graph`, `needs_task` — the same, opened;
* `checkAll_eq_ok`, `check_eq_ok`, `check_error` — tasks are in order together when each of them
  is, and fail as one of them does;
* `needs_declared` — a component needs nothing else than inputs that it declares;
* `Component.IsClean` — components whose texts and names are as they should be, and flat pipelines
  among them;
* `needs_of_isFlat` — a flat pipeline needs what its check finds.
-/

mutual

/-- The inputs that a component with some arguments needs, if everything in it is in order. -/
def Component.needs (arguments : Keyed Argument) : Component → Except Failure (List String)
  | ⟨implementation, name, description, inputs, outputs, metadata⟩ =>
    implementationNeeds ⟨implementation, name, description, inputs, outputs, metadata⟩ arguments
      implementation

/-- The inputs that the component `c` with an implementation needs: those in the command line of the
    container, or those that the tasks of the graph need. -/
def implementationNeeds (c : Component) (arguments : Keyed Argument) :
    Implementation → Except Failure (List String)
  | .container container =>
    (Expander.commandLine { component := c, arguments, accessors := .plain } container).map
      CommandLine.inputs
  | .graph ⟨tasks, outputValues⟩ => do
    let order ← Graph.order ⟨tasks, outputValues⟩ c.inputNames
    checkAll (checksOf tasks) order

/-- What the tasks of a graph need, by id. -/
def checksOf : List (String × GraphTask) → Keyed (Except Failure (List String))
  | [] => []
  | (id, task) :: rest => (id, task.needs) :: checksOf rest

/-- The inputs of the graph around it that a task needs, if the inputs that its component needs get
    something. -/
def GraphTask.needs : GraphTask → Except Failure (List String)
  | ⟨⟨_, _, _, _, some component⟩, arguments, _⟩ => do
    let names ← component.needs arguments
    component.checkInputs (Keyed.has arguments) names
    pure (inputsOf arguments names)
  | ⟨⟨name, _, _, url, none⟩, _, _⟩ => .error (.ofCause (.unresolvedReference name url))

end

/-! ### Opened -/

variable {c : Component} {arguments : Keyed Argument}

/-- A container needs the inputs in its command line. -/
theorem needs_container {container : Container} (himpl : c.implementation = .container container) :
    c.needs arguments =
      (Expander.commandLine { component := c, arguments, accessors := .plain } container).map
        CommandLine.inputs := by
  obtain ⟨implementation, name, description, inputs, outputs, metadata⟩ := c
  obtain rfl : implementation = .container container := himpl
  rw [Component.needs, implementationNeeds]

/-- The checks of tasks, one by one. -/
theorem checksOf_eq (tasks : List (String × GraphTask)) :
    checksOf tasks = Keyed.mapValues GraphTask.needs tasks := by
  induction tasks with
  | nil => rfl
  | cons entry rest ih =>
    rw [checksOf, ih]
    rfl

/-- A graph needs what its tasks need. -/
theorem needs_graph {g : Graph} (himpl : c.implementation = .graph g) :
    c.needs arguments = g.check GraphTask.needs c.inputNames := by
  obtain ⟨implementation, name, description, inputs, outputs, metadata⟩ := c
  obtain rfl : implementation = .graph g := himpl
  obtain ⟨tasks, outputValues⟩ := g
  rw [Component.needs, implementationNeeds, checksOf_eq]
  rfl

/-- A task with a component. -/
theorem needs_task {task : GraphTask} {component : Component}
    (hspec : task.reference.spec = some component) : task.needs = (do
      let names ← component.needs task.arguments
      component.checkInputs (Keyed.has task.arguments) names
      pure (inputsOf task.arguments names)) := by
  obtain ⟨⟨name, digest, tag, url, spec⟩, arguments, annotations⟩ := task
  obtain rfl : spec = some component := hspec
  rw [GraphTask.needs]

/-- What a task with a component needs, if it is in order. -/
theorem taskNeeds_eq_ok {task : GraphTask} {component : Component}
    (hspec : task.reference.spec = some component) {needed : List String} :
    task.needs = .ok needed ↔ ∃ names, component.needs task.arguments = .ok names ∧
      component.checkInputs (Keyed.has task.arguments) names = .ok () ∧
      needed = inputsOf task.arguments names := by
  rw [needs_task hspec]
  constructor
  · intro h
    obtain ⟨names, hnames, h⟩ := bind_eq_ok.mp h
    obtain ⟨_, hchecked, h⟩ := bind_eq_ok.mp h
    exact ⟨names, hnames, hchecked, (pure_eq_ok.mp h).symm⟩
  · rintro ⟨names, hnames, hchecked, rfl⟩
    exact bind_eq_ok.mpr ⟨names, hnames, bind_eq_ok.mpr ⟨(), hchecked, rfl⟩⟩

/-- What a container needs does not depend on how a target refers to inputs. -/
theorem needs_agrees {mayStop : Prop} (accessors : Accessors) {container : Container}
    (himpl : c.implementation = .container container) :
    Agree (.verdict mayStop) (fun line names =>
        (∀ input, input ∈ line.inputs ↔ input ∈ names) ∧ ∀ name ∈ line.inputs,
          name ∈ c.inputNames)
      (Expander.commandLine { component := c, arguments, accessors } container)
      (c.needs arguments) := by
  have hlines : Agree (.verdict mayStop) _ _ _ := commandLine_inputs
    (x := { component := c, arguments, accessors })
    (y := { component := c, arguments, accessors := .plain }) rfl rfl container
  rw [needs_container himpl]
  exact hlines.results.map_right fun line _ ⟨hline, _, hsame⟩ =>
    ⟨hsame, commandLine_declared hline⟩

/-! ### Tasks together -/

variable {checks : Keyed (Except Failure (List String))} {order : List String}

/-- **Tasks are in order together when each of them is**, and they need what each of them needs. -/
theorem checkAll_eq_ok {used : List String} (h : checkAll checks order = .ok used) :
    (∀ id ∈ order, ∃ needed, Keyed.find? checks id = some (.ok needed)) ∧
      ∀ input, input ∈ used ↔
        ∃ id ∈ order, ∃ needed, Keyed.find? checks id = some (.ok needed) ∧
          input ∈ needed := by
  -- By induction on the order, as the check itself goes.
  induction order generalizing used with
  | nil =>
    obtain rfl := Except.ok.inj h
    exact ⟨(fun _ hid => nomatch hid), fun input => by simp⟩
  | cons id rest ih =>
    rw [checkAll] at h
    obtain ⟨check, hcheck, h⟩ := bind_eq_ok.mp h
    obtain ⟨needed, hneeded, h⟩ := bind_eq_ok.mp h
    obtain ⟨others, hothers, h⟩ := bind_eq_ok.mp h
    obtain rfl := pure_eq_ok.mp h
    have hfind : Keyed.find? checks id = some (.ok needed) := by
      rw [fetch_eq_ok.mp hcheck]
      cases check with
      | ok found => exact congrArg (fun x => some (Except.ok x)) (Except.ok.inj hneeded)
      | error e => cases hneeded
    obtain ⟨hall, hused⟩ := ih hothers
    refine ⟨List.forall_mem_cons.mpr ⟨⟨needed, hfind⟩, hall⟩, fun input => ?_⟩
    rw [List.mem_append, hused input, List.exists_mem_cons_iff]
    refine or_congr_left ⟨fun hmem => ⟨needed, hfind, hmem⟩, ?_⟩
    rintro ⟨needed', hfind', hmem⟩
    rw [hfind] at hfind'
    obtain rfl := Except.ok.inj (Option.some.inj hfind')
    exact hmem

/-- Where tasks are in order one by one, they are together. -/
theorem exists_checkAll
    (h : ∀ id ∈ order, ∃ needed, Keyed.find? checks id = some (.ok needed)) :
    ∃ used, checkAll checks order = .ok used := by
  induction order with
  | nil => exact ⟨[], rfl⟩
  | cons id rest ih =>
    obtain ⟨needed, hfind⟩ := h id List.mem_cons_self
    obtain ⟨others, hothers⟩ := ih fun other hother => h other (List.mem_cons_of_mem _ hother)
    exact ⟨needed ++ others, by rw [checkAll, fetch_eq_ok.mpr hfind, hothers]; rfl⟩

/-- Where one of them is not in order and the others are, they fail as this one does. -/
theorem checkAll_error {id : String} {e : Failure} (hid : id ∈ order)
    (he : Keyed.find? checks id = some (.error e))
    (hothers : ∀ other ∈ order, other ≠ id →
      ∃ needed, Keyed.find? checks other = some (.ok needed)) :
    checkAll checks order = .error (e.within id) := by
  induction order with
  | nil => cases hid
  | cons first rest ih =>
    rw [checkAll]
    by_cases hfirst : first = id
    · rw [hfirst, fetch_eq_ok.mpr he]
      rfl
    · obtain ⟨needed, hneeded⟩ := hothers first List.mem_cons_self hfirst
      rw [fetch_eq_ok.mpr hneeded,
        ih (List.mem_of_ne_of_mem (Ne.symm hfirst) hid) fun other hother =>
          hothers other (List.mem_cons_of_mem _ hother)]
      rfl

/-! ### Graphs -/

variable {g : Graph} {check : GraphTask → Except Failure (List String)} {inputs : List String}

/-- The checks of the tasks of a graph. -/
theorem find?_checks (id : String) : Keyed.find? (Keyed.mapValues check g.tasks) id =
    (g.task? id).map check := Keyed.find?_map (fun _ => check) g.tasks id

/-- What a graph needs, by its tasks. -/
theorem check_eq_ok {used : List String} (h : g.check check inputs = .ok used) :
    ∃ order, g.order inputs = .ok order ∧
      (∀ id task, g.task? id = some task → ∃ needed, check task = .ok needed) ∧
      ∀ input, input ∈ used ↔ ∃ id task needed, g.task? id = some task ∧
        check task = .ok needed ∧
        input ∈ needed := by
  obtain ⟨order, horder, h⟩ := bind_eq_ok.mp h
  have hplanned := order_planned horder
  obtain ⟨hall, hused⟩ := checkAll_eq_ok h
  have hmem : ∀ {id task}, g.task? id = some task → id ∈ order := fun htask =>
    (hplanned.mem_iff _).mpr (Keyed.mem_keys_of_find? htask)
  -- All tasks are in the order, so what is needed in the order is what any task needs.
  refine ⟨order, horder, fun id task htask => ?_, fun input => ?_⟩
  · obtain ⟨needed, hneeded⟩ := hall id (hmem htask)
    rw [find?_checks, htask] at hneeded
    exact ⟨needed, Option.some.inj hneeded⟩
  · rw [hused input]
    constructor
    · rintro ⟨id, -, needed, hneeded, hinput⟩
      rw [find?_checks] at hneeded
      obtain ⟨task, htask, hcheck⟩ := Option.map_eq_some_iff.mp hneeded
      exact ⟨id, task, needed, htask, hcheck, hinput⟩
    · rintro ⟨id, task, needed, htask, hcheck, hinput⟩
      exact ⟨id, hmem htask, needed, by
        rw [find?_checks, htask, Option.map_some, hcheck], hinput⟩

/-- A graph with an order is in order when its tasks are. -/
theorem exists_check {order : List String} (horder : g.order inputs = .ok order)
    (h : ∀ id task, g.task? id = some task → ∃ needed, check task = .ok needed) :
    ∃ used, g.check check inputs = .ok used := by
  rw [Graph.check, horder]
  refine exists_checkAll fun id hid => ?_
  obtain ⟨task, htask⟩ :=
    Keyed.exists_find?_of_mem_keys (((order_planned horder).mem_iff id).mp hid)
  obtain ⟨needed, hneeded⟩ := h id task htask
  exact ⟨needed, by rw [find?_checks, show g.task? id = _ from htask, Option.map_some, hneeded]⟩

/-- If one task is not, the graph fails as it does. -/
theorem check_error {order : List String} (horder : g.order inputs = .ok order) {id : String}
    {task : GraphTask} (htask : g.task? id = some task) {e : Failure} (he : check task = .error e)
    (hothers : ∀ other task, other ≠ id → g.task? other = some task →
      ∃ needed, check task = .ok needed) : g.check check inputs = .error (e.within id) := by
  have hplanned := order_planned horder
  rw [Graph.check, horder]
  refine checkAll_error ((hplanned.mem_iff id).mpr (Keyed.mem_keys_of_find? htask))
    (by rw [find?_checks, htask, Option.map_some, he]) fun other hother hne => ?_
  obtain ⟨found, hfound⟩ := Keyed.exists_find?_of_mem_keys ((hplanned.mem_iff other).mp hother)
  obtain ⟨needed, hneeded⟩ := hothers other found hne hfound
  exact ⟨needed, by
    rw [find?_checks, show g.task? other = _ from hfound, Option.map_some, hneeded]⟩

/-- **A component needs nothing else than inputs that it declares.** -/
theorem needs_declared {names : List String} (h : c.needs arguments = .ok names) :
    ∀ name ∈ names, name ∈ c.inputNames := by
  cases himpl : c.implementation with
  | container container =>
    rw [needs_container himpl] at h
    obtain ⟨line, hline, rfl⟩ := map_eq_ok.mp h
    exact commandLine_declared hline
  | graph g =>
    rw [needs_graph himpl] at h
    obtain ⟨order, horder, hall, hused⟩ := check_eq_ok h
    have hplanned := order_planned horder
    intro name hname
    obtain ⟨id, task, needed, htask, hneeds, hmem⟩ := (hused name).mp hname
    obtain ⟨component, hspec⟩ :=
      Option.isSome_iff_exists.mp (hplanned.specified _ (Keyed.mem_of_find? htask))
    obtain ⟨inner, -, -, rfl⟩ := (taskNeeds_eq_ok hspec).mp hneeds
    obtain ⟨other, -, hinput⟩ := (mem_inputsOf (c := component)).mp hmem
    -- Only an input of the graph around is needed by it; other arguments need nothing.
    cases hargument : component.argumentFor task.arguments other with
    | literal | taskOutput =>
      rw [hargument] at hinput
      cases hinput
    | graphInput input type =>
      rw [hargument] at hinput
      obtain rfl := Option.some.inj hinput
      obtain ⟨entry, hentry, heq⟩ := argumentFor_mem hargument fun _ he => nomatch he
      exact hplanned.input htask hentry heq

/-! ### Clean components -/

/-- A component whose name is a text if there is one, and whose texts are whole as far as they get
    into documents. -/
structure Component.IsClean (c : Component) : Prop where
  named : IsStem c.name
  container : ∀ container, c.implementation = .container container → c.IsWhole
  graph : ∀ g, c.implementation = .graph g → g.IsWhole

/-- Flat pipelines whose texts are whole are clean at every depth. -/
theorem Component.IsFlat.isClean {g : Graph} (hflat : c.IsFlat g) (hwhole : g.IsWhole) :
    c.Throughout Component.IsClean := by
  have hgraph : ∀ {g'}, c.implementation = .graph g' → g' = g := fun himpl =>
    Implementation.graph.inj (himpl.symm.trans hflat.graph)
  refine .intro ⟨hflat.named, fun container himpl => ?_, fun g' himpl =>
    hgraph himpl ▸ hwhole⟩
    fun g' himpl entry hentry component hspec => ?_
  · rw [hflat.graph] at himpl
    cases himpl
  · obtain rfl := hgraph himpl
    obtain ⟨hname, hcontainer⟩ := hflat.tasks entry hentry component hspec
    obtain ⟨container, hcontainer⟩ := exists_container hcontainer
    have hnone : ∀ {g}, component.implementation ≠ .graph g := fun himpl => by
      rw [hcontainer] at himpl
      cases himpl
    exact .intro ⟨hname, fun _ _ => (hwhole entry hentry).2 component hspec,
      fun _ himpl => absurd himpl hnone⟩ fun _ himpl => absurd himpl hnone

/-- **A flat pipeline needs what its check finds.** -/
theorem needs_of_isFlat {g : Graph} (hflat : c.IsFlat g) :
    c.needs arguments = g.check GraphTask.check c.inputNames := by
  have htask : ∀ entry ∈ g.tasks, entry.2.needs = entry.2.check := by
    rintro ⟨id, task⟩ hentry
    -- Where tasks are containers, needing something and checking it is the same.
    cases hspec : task.reference.spec with
    | none =>
      obtain ⟨⟨name, digest, tag, url, spec⟩, arguments, annotations⟩ := task
      obtain rfl : spec = none := hspec
      rw [GraphTask.needs, GraphTask.check]
    | some component =>
      obtain ⟨container, himpl⟩ := exists_container (hflat.tasks _ hentry component hspec).2
      rw [needs_task hspec, needs_container himpl, GraphTask.check]
      simp only [hspec, himpl]
      cases Expander.commandLine { component, arguments := task.arguments, accessors := .plain }
        container with
      | error e => rfl
      | ok line => rfl
  have hchecks : Keyed.mapValues GraphTask.needs g.tasks =
      Keyed.mapValues GraphTask.check g.tasks :=
    List.map_congr_left fun entry hentry => by rw [htask entry hentry]
  rw [needs_graph hflat.graph, Graph.check, Graph.check, hchecks]

end PipelineCompiler
