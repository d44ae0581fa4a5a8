import PipelineCompiler.Component.Basic
import PipelineCompiler.Journal

namespace PipelineCompiler

/-!
# What inputs are bound to

* `InputSpec.bound` — what is given for an input, or else its default;
* `InputSpec.argument`, `InputSpec.rootText` — the same in a task and in a whole pipeline;
* `plainTexts`, `Component.rootTexts` — the texts that a caller gives for a whole pipeline;
* `Argument.isParameter`, `Component.parameterInputs` — the inputs that get parameters.
-/

/-- What an input is bound to: what is given for it, or else its default.  An optional input
    without either is bound to the empty text, with a warning. -/
def InputSpec.bound (input : InputSpec) (given : Option α) (literal : String → α)
    (task : String) : Recorded α :=
  match given, input.default with
  | some found, _ => pure found
  | none, some text => pure (literal text)
  | none, none =>
    if input.isOptional then do
      Recorded.warn task <| s!"Input \"{input.name}\" is optional, but command-line " ++
        "still uses it when it's not present."
      pure (literal "")
    else throw (.ofCause (.missingArgument input.name))

/-- The argument of an input in a task. -/
def InputSpec.argument (input : InputSpec) (arguments : Keyed Argument) (task : String) :
    Recorded Argument :=
  input.bound (Keyed.find? arguments input.name) .literal task

/-- The text of an input of a whole pipeline. -/
def InputSpec.rootText (input : InputSpec) (texts : Keyed String) : Recorded String :=
  input.bound (Keyed.find? texts input.name) id ""

/-- The declared input with a name that has to be there. -/
def Component.fetchInput (c : Component) (name : String) : Except Failure InputSpec :=
  match c.input? name with
  | some input => .ok input
  | none => .error .illTyped

/-- Values under names in their plain form, if all of them have one. -/
def plainTexts (arguments : Keyed Value) : Except Failure (Keyed String) :=
  arguments.mapM fun entry => do
    let text ← entry.2.shownText
    return (entry.1, text)

/-- The texts that a caller gives for the inputs of a whole pipeline, in their plain form and
    behind the defaults.  An argument that no input takes is kept, with a warning. -/
def Component.rootTexts (c : Component) (arguments : Keyed Value) : Recorded (Keyed String) := do
  (Keyed.keys arguments).forM fun name =>
    if name ∈ c.inputNames then pure ()
    else Recorded.warn "" s!"Pipeline argument \"{name}\" does not match any pipeline input"
  let defaults := c.inputs.filterMap fun input => input.default.map fun text => (input.name, text)
  let given ← plainTexts arguments
  pure (given.foldl (fun texts entry => Keyed.put texts entry.1 entry.2) defaults)

/-- Whether an argument is a parameter: a literal is, an output of a task is an artifact, and an
    input of the graph is what the graph gets for it. -/
def Argument.isParameter (graphParameters : List String) : Argument → Bool
  | .literal _ => true
  | .graphInput input _ => input ∈ graphParameters
  | .taskOutput _ => false

/-- The inputs that get parameters; one without an argument does, because defaults are
    literals. -/
def Component.parameterInputs (c : Component) (arguments : Keyed Argument)
    (graphParameters : List String) : List String :=
  c.inputNames.filter fun name =>
    (Keyed.find? arguments name).all (Argument.isParameter graphParameters)

end PipelineCompiler
