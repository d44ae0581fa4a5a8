import PipelineCompiler.Proofs.Component.Needs
import PipelineCompiler.Proofs.Component.Unbound
import PipelineCompiler.Proofs.Failing

namespace PipelineCompiler

/-!
# What is missing without an argument

* `Container.LooksAt`, `needs_without` — an argument that conditions do not look at may be taken
  away without a change to the command line;
* `Lacks`, `needs_unbind` — a pipeline without an argument needs what it needed before if nothing
  reads the input, and otherwise the argument is missing at the task;
* `Component.Passes.needs` — what gets its data through an input is needed only if the input is.
-/

/-! ### Conditions -/

/-- The input that a condition looks at. -/
def Condition.input? : Condition → Option String
  | .bool _ | .text _ => none
  | .isPresent input | .inputValue input => some input

/-- A condition in a container looks at an input. -/
def Container.LooksAt (container : Container) (name : String) : Prop :=
  ∃ condition ∈ container.conditions, condition.input? = some name

/-- Conditions that do not look at an input are decided without it. -/
theorem decides_without {x : Expander} {container : Container} {name : String}
    (h : ¬ container.LooksAt name) :
    x.Decides { x with arguments := Keyed.without x.arguments name } container.conditions := by
  intro condition hcondition
  cases condition with
  | bool | text => rfl
  | isPresent input =>
    have hne : input ≠ name := fun he => h ⟨_, hcondition, congrArg some he⟩
    rw [Condition.holds, Condition.holds, Keyed.has_without _ hne]
  | inputValue input =>
    have hne : input ≠ name := fun he => h ⟨_, hcondition, congrArg some he⟩
    rw [Condition.holds, Condition.holds, Keyed.find?_without _ hne]

section Conditions

variable {c : Component} {name : String} (arguments : Keyed Argument)
  (h : ∀ container, c.implementation = .container container → ¬ container.LooksAt name)
include h

/-- The command line of a container is the same without an input that its conditions do not look
    at. -/
theorem commandLine_without (accessors : Accessors) :
    c.commandLine (Keyed.without arguments name) accessors = c.commandLine arguments accessors := by
  cases himpl : c.implementation with
  | container container =>
    simp only [Component.commandLine, himpl]
    exact commandLine_of_decides (x := { component := c, arguments, accessors })
      (decides_without (h container himpl))
  | graph g => simp only [Component.commandLine, himpl]

/-- What a component needs is the same without it, too. -/
theorem needs_without : c.needs (Keyed.without arguments name) = c.needs arguments := by
  cases himpl : c.implementation with
  | container container =>
    rw [needs_container himpl, needs_container himpl]
    exact congrArg (Except.map CommandLine.inputs)
      (commandLine_of_decides (x := { component := c, arguments, accessors := .plain })
        (decides_without (h container himpl)))
  | graph g => rw [needs_graph himpl, needs_graph himpl]

end Conditions

/-! ### Needs -/

/-- Such an input does not pass its check when it is not given. -/
theorem Component.Requires.missing {c : Component} {name : String} (h : c.Requires name)
    {given : String → Bool} (hgiven : given name = false) :
    c.checkInput given name ≠ .ok () := by
  obtain ⟨input, hinput, hdefault, hoptional⟩ := h
  rw [Component.checkInput, fetchInput_eq_ok.mpr hinput]
  change input.check (given name) ≠ .ok ()
  rw [InputSpec.check, hgiven, hdefault, hoptional]
  intro he
  cases he

/-- The other inputs are checked as before. -/
theorem checkInput_without (c : Component) (arguments : Keyed Argument) {name other : String}
    (hother : other ≠ name) : c.checkInput (Keyed.has (Keyed.without arguments name)) other =
      c.checkInput (Keyed.has arguments) other := by
  rw [Component.checkInput, Component.checkInput, Keyed.has_without _ hother]

/-- What comes of some needs when an argument is taken away: they stay as they are if its input is
    not read, and otherwise it is missing at the end of a way. -/
structure Lacks (isRead : Prop) (name : String) (way before : List String)
    (after : Except Failure (List String)) : Prop where
  unread : ¬ isRead → ∃ needed, after = .ok needed ∧ ∀ input, input ∈ needed ↔
    input ∈ before
  read : isRead →
    after = .error (.compilation { cause := .missingArgument name, taskPath := way })

/-- If there are needs after that, they are the same. -/
theorem Lacks.of_ok {isRead : Prop} {name : String} {way before needed : List String}
    (h : Lacks isRead name way before (.ok needed)) : ∀ input, input ∈ needed ↔
    input ∈ before := by
  obtain ⟨other, hother, hsame⟩ := h.unread fun hread => nomatch h.read hread
  obtain rfl := Except.ok.inj hother
  exact hsame

section Lacking

variable {isRead : Prop} {name id : String} {inner needed : List String} {task : GraphTask}
  {component : Component}

/-- A task that loses the argument itself. -/
theorem lacks_here (hspec : task.reference.spec = some component)
    (hrequired : component.Requires name) {read : List String}
    (hread : component.needs task.arguments = .ok read)
    (hkept : component.needs (Keyed.without task.arguments name) = component.needs task.arguments)
    (hneeded : task.needs = .ok needed) :
    Lacks (name ∈ read) name [] needed (task.unbind name []).needs := by
  have hspec' : (task.unbind name []).reference.spec = some component := hspec
  have harguments : (task.unbind name []).arguments = Keyed.without task.arguments name := rfl
  obtain ⟨_, hread', hchecked, rfl⟩ := (taskNeeds_eq_ok hspec).mp hneeded
  obtain rfl := Except.ok.inj (hread.symm.trans hread')
  constructor
  · intro hunread
    have hne : ∀ other ∈ read, other ≠ name := fun other hother he => hunread (he ▸ hother)
    refine ⟨inputsOf task.arguments read, (taskNeeds_eq_ok hspec').mpr
      ⟨read, harguments ▸ hkept.trans hread,
        checkInputs_eq_ok.mpr fun other hother => ?_, ?_⟩, fun _ => .rfl⟩
    · rw [harguments, checkInput_without _ _ (hne other hother)]
      exact checkInputs_eq_ok.mp hchecked other hother
    · exact List.filterMap_congr fun other hother => by
        rw [harguments, Keyed.find?_without _ (hne other hother)]
  · intro hmem
    have hlost : Keyed.has (Keyed.without task.arguments name) name = false := by
      rw [Keyed.has, Keyed.find?_without_self]
      rfl
    rw [needs_task hspec', harguments, hkept, hread]
    rcases checkInputs_cases (Keyed.has (Keyed.without task.arguments name))
      (needs_declared hread) with ⟨-, hall⟩ | ⟨missing, hmissing, hfails, herror⟩
    · exact absurd (hall name hmem) (hrequired.missing hlost)
    -- nothing else is missing, because nothing else was taken away
    · obtain rfl : missing = name := by
        by_contra hother
        exact hfails ((checkInput_without _ _ hother).trans
          (checkInputs_eq_ok.mp hchecked missing hmissing))
      exact bind_eq_error.mpr (.inr ⟨read, rfl, bind_eq_error.mpr (.inl herror)⟩)

/-- A task within which the argument is taken away. -/
theorem lacks_within (hspec : task.reference.spec = some component) {names : List String}
    (hnames : component.needs task.arguments = .ok names) (hneeded : task.needs = .ok needed)
    (h : Lacks isRead name (id :: inner) names
      ((component.edit id (GraphTask.unbind name inner)).needs task.arguments)) :
    Lacks isRead name (id :: inner) needed (task.unbind name (id :: inner)).needs := by
  have hspec' : (task.unbind name (id :: inner)).reference.spec =
      some (component.edit id (GraphTask.unbind name inner)) := by
    rw [GraphTask.unbind, hspec]
    rfl
  have harguments : (task.unbind name (id :: inner)).arguments = task.arguments := rfl
  obtain ⟨_, hnames', hchecked, rfl⟩ := (taskNeeds_eq_ok hspec).mp hneeded
  obtain rfl := Except.ok.inj (hnames.symm.trans hnames')
  -- If the input is not read the task needs what it needed, and otherwise its check fails for it.
  constructor
  · intro hunread
    obtain ⟨kept, hkept, hsame⟩ := h.unread hunread
    refine ⟨inputsOf task.arguments kept, (taskNeeds_eq_ok hspec').mpr ⟨kept,
      harguments ▸ hkept, checkInputs_eq_ok.mpr fun other hother => ?_, rfl⟩, fun input => ?_⟩
    · rw [harguments, edit_checkInput]
      exact checkInputs_eq_ok.mp hchecked other ((hsame other).mp hother)
    · simp only [mem_inputsOf (c := component), hsame]
  · intro hread
    rw [needs_task hspec', harguments, h.read hread]
    rfl

/-- The graph around a task within which the argument is taken away. -/
theorem lacks_around {g : Graph} {inputs used : List String}
    (hused : g.check GraphTask.needs inputs = .ok used) (htask : g.task? id = some task)
    (hneeded : task.needs = .ok needed)
    (h : Lacks isRead name inner needed (task.unbind name inner).needs) :
    Lacks isRead name (id :: inner) used
      ((g.edit id (GraphTask.unbind name inner)).check GraphTask.needs inputs) := by
  obtain ⟨order, horder, hall, hsame⟩ := check_eq_ok hused
  obtain ⟨order', horder'⟩ :=
    ((order_planned horder).edit id (keeps_unbind name inner)).exists_order
  have hself : (g.edit id (GraphTask.unbind name inner)).task? id =
      some (task.unbind name inner) := by
    rw [task?_edit, htask, Option.map_some, if_pos rfl]
  have hother : ∀ other, other ≠ id →
      (g.edit id (GraphTask.unbind name inner)).task? other = g.task? other := by
    intro other hne
    simp only [task?_edit, if_neg hne, Option.map_id']
  constructor
  · intro hunread
    obtain ⟨kept, hkept, hsameKept⟩ := h.unread hunread
    have hall' : ∀ other found,
      (g.edit id (GraphTask.unbind name inner)).task? other = some found →
        ∃ needed, found.needs = .ok needed := by
      intro other found hfound
      by_cases hne : other = id
      · subst hne
        obtain rfl := Option.some.inj (hself.symm.trans hfound)
        exact ⟨kept, hkept⟩
      · exact hall other found (hother other hne ▸ hfound)
    obtain ⟨used', hused'⟩ := exists_check horder' hall'
    obtain ⟨-, -, -, hsame'⟩ := check_eq_ok hused'
    refine ⟨used', hused', fun input => ?_⟩
    rw [hsame' input, hsame input]
    -- the task needs what it needed before, and the others are the same
    refine exists_congr fun other => ?_
    by_cases hne : other = id
    · subst hne
      simp only [hself, htask, Option.some.injEq, exists_and_left, exists_eq_left', hkept, hneeded,
        Except.ok.injEq, hsameKept]
    · rw [hother other hne]
  · intro hread
    exact check_error horder' hself (h.read hread) fun other found hne hfound =>
      hall other found (hother other hne ▸ hfound)

end Lacking

/-- What a graph needs in which a task is changed. -/
theorem needs_edit {c : Component} {g : Graph} (himpl : c.implementation = .graph g) (id : String)
    (f : GraphTask → GraphTask) (arguments : Keyed Argument) :
    (c.edit id f).needs arguments = (g.edit id f).check GraphTask.needs c.inputNames := by
  rw [edit_graph himpl]
  exact needs_graph rfl

/-- What stands around something. -/
theorem exists_around {c : Component} {path : List String} {here : Placed} {inner : List String}
    (h : c.at? (inner ++ path) = some here) : ∃ around, c.at? path = some around := by
  induction inner generalizing here with
  | nil => exact ⟨here, h⟩
  | cons id inner ih =>
    obtain ⟨around, _, _, haround, -⟩ := at?_cons.mp h
    exact ih haround

/-- **What a graph needs without an argument somewhere in it**: the same as before if the input is
    not read there, and otherwise the argument is missing. -/
theorem needs_unbind {c : Component} {path inner : List String} {id name : String} {here : Placed}
    (hhere : c.at? (inner.reverse ++ id :: path) = some here)
    (hrequired : here.component.Requires name) {read : List String}
    (hread : here.component.needs here.arguments = .ok read)
    (hkept : here.component.needs (Keyed.without here.arguments name) =
      here.component.needs here.arguments)
    {around : Placed} (haround : c.at? path = some around) {used : List String}
    (hused : around.component.needs around.arguments = .ok used) :
    Lacks (name ∈ read) name (id :: inner) used
      ((around.component.edit id (GraphTask.unbind name inner)).needs around.arguments) := by
  -- By induction on the tasks further in.  At the innermost the argument is gone; each graph around
  -- passes on what its task lacks.
  induction inner generalizing id path around used with
  | nil =>
    obtain ⟨_, g, task, haround', himpl, htask, hspec, harguments⟩ := at?_cons.mp hhere
    obtain rfl := Option.some.inj (haround.symm.trans haround')
    rw [needs_graph himpl] at hused
    obtain ⟨-, -, hall, -⟩ := check_eq_ok hused
    obtain ⟨needed, hneeded⟩ := hall id task htask
    rw [harguments] at hread hkept
    rw [needs_edit himpl]
    exact lacks_around hused htask hneeded (lacks_here hspec hrequired hread hkept hneeded)
  | cons next inner ih =>
    rw [List.reverse_cons, List.append_assoc, List.singleton_append] at hhere
    have hwithin : c.at? ((inner.reverse ++ [next]) ++ id :: path) = some here := by
      simpa using hhere
    obtain ⟨place, hplace⟩ := exists_around hwithin
    obtain ⟨_, g, task, haround', himpl, htask, hspec, harguments⟩ := at?_cons.mp hplace
    obtain rfl := Option.some.inj (haround.symm.trans haround')
    rw [needs_graph himpl] at hused
    obtain ⟨-, -, hall, -⟩ := check_eq_ok hused
    obtain ⟨needed, hneeded⟩ := hall id task htask
    obtain ⟨names, hnames, -⟩ := (taskNeeds_eq_ok hspec).mp hneeded
    have hinner := ih hhere hplace (harguments ▸ hnames)
    rw [harguments] at hinner
    rw [needs_edit himpl]
    exact lacks_around hused htask hneeded (lacks_within hspec hnames hneeded hinner)

/-! ### What is passed on -/

/-- **What is needed within a task is needed by the task**, if its data comes through the task and
    everything is in order. -/
theorem Component.Passes.needs {c : Component} {outer path : List String} {name input : String}
    (h : c.Passes outer name path input)
    (hall : ∀ path here, c.at? path = some here →
      ∃ names, here.component.needs here.arguments = .ok names)
    {here : Placed} (hhere : c.at? path = some here) {names : List String}
    (hnames : here.component.needs here.arguments = .ok names) (hinput : input ∈ names)
    {task : Placed} (htask : c.at? outer = some task) {read : List String}
    (hread : task.component.needs task.arguments = .ok read) : name ∈ read := by
  -- By induction on the tasks that the data goes through: what is used within a task is an argument
  -- of it that comes from the graph around.
  induction h generalizing here names with
  | self =>
    obtain rfl := Option.some.inj (hhere.symm.trans htask)
    obtain rfl := Except.ok.inj (hnames.symm.trans hread)
    exact hinput
  | inward _ place argument ih =>
    obtain rfl := Option.some.inj (hhere.symm.trans place)
    obtain ⟨around, g, found, haround, himpl, hfound, hspec, harguments⟩ := at?_cons.mp hhere
    obtain ⟨used, hused⟩ := hall _ around haround
    refine ih haround hused ?_
    rw [needs_graph himpl] at hused
    obtain ⟨-, -, hneeded, hsame⟩ := check_eq_ok hused
    obtain ⟨needed, hneeded⟩ := hneeded _ found hfound
    refine (hsame _).mpr ⟨_, found, needed, hfound, hneeded, ?_⟩
    obtain ⟨names', hnames', -, rfl⟩ := (taskNeeds_eq_ok hspec).mp hneeded
    rw [harguments] at hnames argument
    obtain rfl := Except.ok.inj (hnames.symm.trans hnames')
    exact mem_inputsOf.mpr ⟨_, hinput, by rw [argument]; rfl⟩

end PipelineCompiler
