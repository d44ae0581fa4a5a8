import PipelineCompiler.Keyed
import PipelineCompiler.Value.Basic

namespace PipelineCompiler

/-!
# Components

A component declares inputs and outputs and is implemented by a container or by a graph of
tasks, each of which refers to a component again.

* `Placeholder`, `Condition` — the items of command lines;
* `Argument`, `TaskOutput` — what the inputs of a task are bound to;
* `Container`, `Graph`, `GraphTask`, `ComponentReference`, `Component` — the tree itself;
* `Component.nesting` — induction over components: a graph may rely on the components of its
  tasks, which may be graphs again, to any depth.

Descriptions, types, annotations and the names of components are carried along as they are and
therefore stay data values; absent ones are null.
-/

/-! ### Command lines -/

/-- What decides between the two branches of a placeholder. -/
inductive Condition where
  | bool (value : Bool)
  | text (value : String)
  | isPresent (input : String)
  | inputValue (input : String)
deriving Repr, DecidableEq

/-- An item of a command line. -/
inductive Placeholder where
  | literal (text : String)
  | inputValue (input : String)
  | inputPath (input : String)
  | outputPath (output : String)
  | concat (items : List Placeholder)
  | branch (condition : Condition) (yes : List Placeholder) (no : Option (List Placeholder))
deriving Repr, Inhabited

/-- An image with its command line and environment. -/
structure Container where
  image : String
  command : Option (List Placeholder) := none
  args : Option (List Placeholder) := none
  env : Keyed Placeholder := []
deriving Inhabited

/-! ### Arguments -/

/-- An output of a task. -/
structure TaskOutput where
  task : String
  output : String
  type : Value := .null
deriving Inhabited

/-- What an input of a task is bound to. -/
inductive Argument where
  | literal (text : String)
  | graphInput (input : String) (type : Value)
  | taskOutput (source : TaskOutput)
deriving Inhabited

/-! ### Interfaces -/

/-- A declared input. -/
structure InputSpec where
  name : String
  type : Value := .null
  description : Value := .null
  default : Option String := none
  isOptional : Bool := false
  annotations : Value.Entries := []
deriving Inhabited

/-- A declared output. -/
structure OutputSpec where
  name : String
  type : Value := .null
  description : Value := .null
  annotations : Value.Entries := []
deriving Inhabited

/-! ### Implementations -/

mutual

/-- A component. -/
structure Component where
  implementation : Implementation
  name : Value
  description : Value
  inputs : List InputSpec
  outputs : List OutputSpec
  metadata : Value.Entries

/-- How a component does its work. -/
inductive Implementation where
  | container (container : Container)
  | graph (graph : Graph)

/-- Tasks, and which of their outputs are the outputs of the graph. -/
structure Graph where
  tasks : List (String × GraphTask)
  outputValues : List (String × TaskOutput)

/-- A task of a graph. -/
structure GraphTask where
  reference : ComponentReference
  arguments : List (String × Argument)
  annotations : Value.Entries

/-- A reference to a component, which is there when it has been loaded. -/
structure ComponentReference where
  name : Value
  digest : Value
  tag : Value
  url : Value
  spec : Option Component

end

namespace Component

/-- The declared input with a name. -/
def input? (c : Component) (name : String) : Option InputSpec :=
  c.inputs.find? (·.name == name)

/-- The names of the inputs. -/
def inputNames (c : Component) : List String := c.inputs.map (·.name)

/-- The names of the outputs. -/
def outputNames (c : Component) : List String := c.outputs.map (·.name)

/-- Whether a container implements the component. -/
def isContainer (c : Component) : Bool :=
  match c.implementation with
  | .container _ => true
  | .graph _ => false

/-- Whether a graph implements the component. -/
def isGraph (c : Component) : Bool := !c.isContainer

end Component

/-! ### Components within components -/

/-- The component of a task is smaller than the component whose graph the task belongs to. -/
theorem sizeOf_inner_lt {c inner : Component} {g : Graph} {entry : String × GraphTask}
    (himpl : c.implementation = .graph g) (hentry : entry ∈ g.tasks)
    (hinner : entry.2.reference.spec = some inner) : sizeOf inner < sizeOf c := by
  obtain ⟨implementation, name, description, inputs, outputs, metadata⟩ := c
  obtain ⟨tasks, outputValues⟩ := g
  obtain ⟨id, ⟨⟨refName, digest, tag, url, spec⟩, arguments, annotations⟩⟩ := entry
  obtain rfl : implementation = .graph ⟨tasks, outputValues⟩ := himpl
  obtain rfl : spec = some inner := hinner
  have hlt := List.sizeOf_lt_of_mem hentry
  simp only [Prod.mk.sizeOf_spec, GraphTask.mk.sizeOf_spec, ComponentReference.mk.sizeOf_spec,
    Option.some.sizeOf_spec] at hlt
  simp only [Component.mk.sizeOf_spec, Implementation.graph.sizeOf_spec, Graph.mk.sizeOf_spec]
  omega

/-- **Induction over components.**  What holds of every container, and of a graph when it holds of
    the components of its tasks, holds of every component. -/
theorem Component.nesting {motive : Component → Prop}
    (container : ∀ c container, c.implementation = .container container → motive c)
    (graph : ∀ c g, c.implementation = .graph g →
      (∀ entry ∈ g.tasks, ∀ inner, entry.2.reference.spec = some inner → motive inner) →
        motive c) (c : Component) : motive c := by
  cases h : c.implementation with
  | container k => exact container c k h
  | graph g =>
    refine graph c g h fun entry hentry inner hinner => ?_
    have hlt : sizeOf inner < sizeOf c := sizeOf_inner_lt h hentry hinner
    exact nesting container graph inner
termination_by sizeOf c

end PipelineCompiler
