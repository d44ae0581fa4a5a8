import PipelineCompiler.Graph.Order
import PipelineCompiler.Proofs.Binding
import PipelineCompiler.Proofs.Keyed

namespace PipelineCompiler

/-!
# Tasks at any depth, and where their data comes from

A path leads to a task of a pipeline: the id of the task comes first, then the ids of the tasks
around it, outwards.  The empty path leads to the pipeline itself.

* `Component.at?`, `at?_append` — what stands at a path: a component with its arguments;
* `Component.Writes` — texts that are written down for inputs of tasks;
* `Origin`, `Component.origin?` — where the data of an input comes from in the end;
* `Origin.IsOf` — origins that a pipeline has;
* `at?_mem` — paths lead nowhere else than to places that are closed under going inwards.
-/

/-- A component and the arguments it runs with. -/
structure Placed where
  component : Component
  arguments : Keyed Argument

/-- The arguments with which a pipeline is compiled: its inputs are passed on. -/
def rootArguments (c : Component) : Keyed Argument :=
  c.inputNames.map fun name => (name, Argument.graphInput name .null)

/-- The graph that implements a component, if one does. -/
def Component.graph? (c : Component) : Option Graph :=
  match c.implementation with
  | .graph g => some g
  | .container _ => none

/-- What stands at a path. -/
def Component.at? (c : Component) : List String → Option Placed
  | [] => some { component := c, arguments := rootArguments c }
  | id :: outer => do
    let around ← c.at? outer
    let g ← around.component.graph?
    let task ← g.task? id
    let component ← task.reference.spec
    pure { component, arguments := task.arguments }

/-- Where data comes from: it is written down, it is an output of the task at a path, or it is
    what the pipeline is given for an input. -/
inductive Origin where
  | constant (text : String)
  | output (path : List String) (name : String)
  | pipelineInput (name : String)
deriving Repr, DecidableEq

/-- The origin of an input of the task at a path.  What is passed on by the graph around the task
    has the origin of the input of that graph. -/
def Component.origin? (c : Component) : List String → String → Option Origin
  | [], name => if name ∈ c.inputNames then some (.pipelineInput name) else none
  | id :: outer, name => do
    let here ← c.at? (id :: outer)
    match here.component.argumentFor here.arguments name with
    | .literal text => some (.constant text)
    | .graphInput input _ => c.origin? outer input
    | .taskOutput source => some (.output (source.task :: outer) source.output)

/-- Origins that a pipeline has: tasks declare the outputs, and the pipeline its inputs. -/
def Origin.IsOf (c : Component) : Origin → Prop
  | .constant _ => True
  | .output path name => ∃ here, c.at? path = some here ∧ name ∈ here.component.outputNames
  | .pipelineInput name => name ∈ c.inputNames

/-! ### Paths -/

/-- A component with a graph is implemented by it. -/
theorem graph?_eq_some {c : Component} {g : Graph} :
    c.graph? = some g ↔ c.implementation = .graph g := by
  unfold Component.graph?
  cases c.implementation with
  | container container => simp
  | graph graph => simp

/-- A task stands in the graph of the task around it. -/
theorem at?_cons {c : Component} {id : String} {outer : List String} {here : Placed} :
    c.at? (id :: outer) = some here ↔ ∃ around g task, c.at? outer = some around ∧
      around.component.implementation = .graph g ∧ g.task? id = some task ∧
      task.reference.spec = some here.component ∧ here.arguments = task.arguments := by
  rw [Component.at?]
  simp only [Option.bind_eq_bind, Option.bind_eq_some_iff, graph?_eq_some, Option.pure_def,
    Option.some.injEq]
  constructor
  · rintro ⟨around, haround, g, hg, task, htask, component, hspec, rfl⟩
    exact ⟨around, g, task, haround, hg, htask, hspec, rfl⟩
  · rintro ⟨around, g, task, haround, hg, htask, hspec, harguments⟩
    refine ⟨around, haround, g, hg, task, htask, here.component, hspec, ?_⟩
    rw [← harguments]

/-- What stands within a task stands within the pipeline. -/
theorem at?_append {c : Component} {outer : List String} {around : Placed}
    (h : c.at? outer = some around) {path : List String} (hpath : path ≠ []) :
    c.at? (path ++ outer) = around.component.at? path := by
  induction path with
  | nil => exact absurd rfl hpath
  | cons id rest ih =>
    rw [List.cons_append, Component.at?, Component.at?]
    by_cases hrest : rest = []
    -- the arguments of the task itself do not matter for what stands within it
    · rw [hrest, List.nil_append, h, Component.at?]
      rfl
    · rw [ih hrest]

/-- A text is written down for an input of a task, at any depth: it is the literal that counts for
    the input, given for it or by default. -/
def Component.Writes (c : Component) (text : String) : Prop :=
  ∃ path here name, path ≠ [] ∧ c.at? path = some here ∧
    name ∈ here.component.inputNames ∧
    here.component.argumentFor here.arguments name = .literal text

/-- What a task in a graph writes down is written in the component of the graph. -/
theorem writes_of_task {c inner : Component} {g : Graph} {id : String} {task : GraphTask}
    (himpl : c.implementation = .graph g) (htask : g.task? id = some task)
    (hspec : task.reference.spec = some inner) {name text : String}
    (hname : name ∈ inner.inputNames)
    (htext : inner.argumentFor task.arguments name = .literal text) : c.Writes text :=
  ⟨[id], { component := inner, arguments := task.arguments }, name, List.cons_ne_nil _ _,
    at?_cons.mpr ⟨_, g, task, rfl, himpl, htask, hspec, rfl⟩, hname, htext⟩

/-- What is written within a task is written in the component of the graph around it. -/
theorem Component.Writes.outward {c inner : Component} {g : Graph} {id : String} {task : GraphTask}
    (himpl : c.implementation = .graph g) (htask : g.task? id = some task)
    (hspec : task.reference.spec = some inner) {text : String} (h : inner.Writes text) :
    c.Writes text := by
  obtain ⟨path, here, name, hpath, hhere, hname, htext⟩ := h
  have hat : c.at? [id] = some { component := inner, arguments := task.arguments } :=
    at?_cons.mpr ⟨_, g, task, rfl, himpl, htask, hspec, rfl⟩
  exact ⟨path ++ [id], here, name, by simp, (at?_append hat hpath).trans hhere, hname, htext⟩

/-- The origin of an input of a task, by the argument that counts. -/
theorem origin?_cons {c : Component} {id : String} {outer : List String} {here : Placed}
    (h : c.at? (id :: outer) = some here) (name : String) :
    c.origin? (id :: outer) name = match here.component.argumentFor here.arguments name with
      | .literal text => some (.constant text)
      | .graphInput input _ => c.origin? outer input
      | .taskOutput source => some (.output (source.task :: outer) source.output) := by
  rw [Component.origin?, h]
  rfl

/-- The origin of an input of the pipeline is that input. -/
theorem origin?_root {c : Component} {name : String} (h : name ∈ c.inputNames) :
    c.origin? [] name = some (.pipelineInput name) := by
  rw [Component.origin?, if_pos h]

/-- Paths lead nowhere else than to some places when the pipeline is among them, and with every
    graph its tasks. -/
theorem at?_mem {c : Component} {places : List Placed}
    (hroot : { component := c, arguments := rootArguments c } ∈ places)
    (hinner : ∀ around ∈ places, ∀ g, around.component.implementation = .graph g →
      ∀ entry ∈ g.tasks, ∀ component, entry.2.reference.spec = some component →
        { component, arguments := entry.2.arguments } ∈ places)
    {path : List String} {here : Placed} (h : c.at? path = some here) : here ∈ places := by
  induction path generalizing here with
  | nil =>
    obtain rfl := Option.some.inj h
    exact hroot
  | cons id outer ih =>
    obtain ⟨around, g, task, haround, hg, htask, hspec, harguments⟩ := at?_cons.mp h
    have hmem := hinner around (ih haround) g hg _ (Keyed.mem_of_find? htask) _ hspec
    rwa [← harguments] at hmem

end PipelineCompiler
