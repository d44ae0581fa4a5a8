import PipelineCompiler.Component.Basic
import PipelineCompiler.Failure.Basic

namespace PipelineCompiler

/-!
# The order of tasks

A graph is compiled task by task, every task after those whose outputs it needs.  Among the tasks
that could come next the one with the least id does, so that the order does not depend on how the
graph was written down.  Before that its references are checked: arguments and graph outputs refer
to inputs of the graph and to outputs of its tasks.

* `Graph.brokenOutput?`, `Graph.brokenArgument?` — why a reference leads nowhere;
* `Graph.taskFault?`, `Graph.outputFault?`, `Graph.fault?` — the first fault of a task, of the
  graph outputs and of a graph;
* `orderedTexts`, `sortedTexts` — texts in order of their code points, with and without
  repetitions;
* `GraphTask.producers` — the tasks whose outputs a task needs;
* `Graph.dependencies` — the producers of every task;
* `Planner` — how many producers each task still waits for, who waits for it, which tasks are
  ready and which are placed;
* `Planner.start`, `Planner.step`, `Planner.run` — before anything is placed, when the first ready
  task is, and until no task is ready;
* `Graph.stuckTasks` — the tasks that are not placed;
* `Graph.order` — the order of a graph without faults and cycles.
-/

/-! ### References within a graph -/

namespace Graph

/-- The task with an id. -/
def task? (g : Graph) (id : String) : Option GraphTask := Keyed.find? g.tasks id

/-- Why an output of a task is none: there is no such task, or it declares no such output.  What
    a task without a component declares is not known. -/
def brokenOutput? (g : Graph) (source : TaskOutput) : Option BrokenReference :=
  match g.task? source.task with
  | none => some (.task source.task source.output)
  | some producer =>
    match producer.reference.spec with
    | none => none
    | some component =>
      if source.output ∈ component.outputNames then none
      else some (.taskOutput source.task source.output)

/-- Why an argument leads nowhere. -/
def brokenArgument? (g : Graph) (inputs : List String) : Argument → Option BrokenReference
  | .literal _ => none
  | .graphInput input _ => if input ∈ inputs then none else some (.graphInput input)
  | .taskOutput source => g.brokenOutput? source

/-- The fault of a task: its component is not there, or else its first argument that leads
    nowhere. -/
def taskFault? (g : Graph) (inputs : List String) (task : GraphTask) : Option Cause :=
  if task.reference.spec.isNone then
    some (.unresolvedReference task.reference.name task.reference.url)
  else
    (task.arguments.findSome? fun argument => g.brokenArgument? inputs argument.2).map .broken

/-- The first graph output that leads nowhere. -/
def outputFault? (g : Graph) : Option Cause :=
  g.outputValues.findSome? fun output =>
    (g.brokenOutput? output.2).map (.brokenOutput output.1)

/-- The first fault of a graph: the tasks are looked at in order, and before the outputs. -/
def fault? (g : Graph) (inputs : List String) : Option CompilationError :=
  let ofTask := g.tasks.findSome? fun entry =>
    (g.taskFault? inputs entry.2).map fun cause => { cause, taskPath := [entry.1] }
  ofTask.or (g.outputFault?.map fun cause => { cause })

end Graph

/-! ### Texts in order -/

/-- Puts a text into texts in order, before the first that is not smaller. -/
def insertText (text : String) : List String → List String
  | [] => [text]
  | other :: rest =>
    if Text.codes other < Text.codes text then other :: insertText text rest
    else text :: other :: rest

/-- Texts in order. -/
def orderedTexts (texts : List String) : List String := texts.foldr insertText []

/-- Texts in order and without repetitions. -/
def sortedTexts (texts : List String) : List String := orderedTexts (texts.foldl insertNew [])

/-- The task an argument comes from. -/
def Argument.producer? : Argument → Option String
  | .taskOutput source => some source.task
  | _ => none

/-- The ids of the tasks whose outputs a task needs, in order. -/
def GraphTask.producers (task : GraphTask) : List String :=
  sortedTexts (task.arguments.filterMap fun argument => argument.2.producer?)

/-- The producers of every task. -/
def Graph.dependencies (g : Graph) : Keyed (List String) :=
  Keyed.mapValues GraphTask.producers g.tasks

/-! ### The planner -/

/-- What is known while tasks are put in order. -/
structure Planner where
  /-- How many of its producers each task waits for. -/
  missing : Keyed Int
  /-- The tasks that need the outputs of each task. -/
  consumers : Keyed (List String)
  /-- The tasks that wait for nothing and are not placed, in order. -/
  ready : List String
  /-- The tasks that are placed. -/
  placed : List String

namespace Planner

variable (dependencies : Keyed (List String))

/-- The producers of a task. -/
def producersOf (id : String) : List String := (Keyed.find? dependencies id).getD []

/-- How many producers each task has. -/
def counts : Keyed Int :=
  Keyed.ofList ((Keyed.keys dependencies).map fun id => (id, (producersOf dependencies id).length))

/-- Notes at a producer that a task needs it. -/
def note (id : String) (table : Keyed (List String)) (producer : String) :
    Except Failure (Keyed (List String)) := do
  let known ← Keyed.fetch table producer
  return Keyed.put table producer (insertNew known id)

/-- Notes at all its producers that a task needs them. -/
def noteAll (table : Keyed (List String)) (id : String) : Except Failure (Keyed (List String)) :=
  (producersOf dependencies id).foldlM (note id) table

/-- Who needs each task. -/
def consumerTable : Except Failure (Keyed (List String)) :=
  (Keyed.keys dependencies).foldlM (noteAll dependencies)
    (Keyed.ofList ((Keyed.keys dependencies).map fun id => (id, [])))

/-- Before anything is placed. -/
def start : Except Failure Planner := do
  let missing := counts dependencies
  let consumers ← consumerTable dependencies
  let ready := orderedTexts (Keyed.keys (missing.filter fun entry => entry.2 = 0))
  return { missing, consumers, ready, placed := [] }

/-- A task waits for one producer less, and is ready when that was the last. -/
def release (p : Planner) (id : String) : Except Failure Planner := do
  let count ← Keyed.fetch p.missing id
  let missing := Keyed.put p.missing id (count - 1)
  if count - 1 = 0 then return { p with missing, ready := orderedTexts (p.ready ++ [id]) }
  else return { p with missing }

/-- Places a task, behind which `rest` is ready, and releases those that need it. -/
def step (p : Planner) (id : String) (rest : List String) : Except Failure Planner := do
  let consumers ← Keyed.fetch p.consumers id
  (orderedTexts consumers).foldlM release { p with ready := rest, placed := p.placed ++ [id] }

/-- Places ready tasks, the first of them again and again, as long as there is one and at most
    `count` times. -/
def run : (count : Nat) → Planner → Except Failure (List String)
  | 0, p => .ok p.placed
  | count + 1, p =>
    match p.ready with
    | [] => .ok p.placed
    | id :: rest => do
      let p ← p.step id rest
      run count p

end Planner

/-- The tasks that are not placed, in order: they lie on a cycle or need a task that does. -/
def Graph.stuckTasks (g : Graph) (placed : List String) : List String :=
  orderedTexts ((Keyed.keys g.tasks).filter fun id => !placed.contains id)

/-- The order of the tasks of a graph without faults and cycles.  Each task is placed once, so that
    there are turns enough. -/
def Graph.order (g : Graph) (inputs : List String) : Except Failure (List String) :=
  match g.fault? inputs with
  | some error => .error (.compilation error)
  | none => do
    let planner ← Planner.start g.dependencies
    let placed ← planner.run g.tasks.length
    if placed.length = planner.missing.length then return placed
    else throw (.ofCause (.cycle (g.stuckTasks placed)))

end PipelineCompiler
