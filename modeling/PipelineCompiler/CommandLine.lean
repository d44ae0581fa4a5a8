import PipelineCompiler.Component.Basic
import PipelineCompiler.Failure.Basic
import PipelineCompiler.Text.Lowercase

namespace PipelineCompiler

/-!
# Command lines

The command line of a container is written with placeholders, and every target has its own way
to say where an input or output is found.

* `Accessors` — how a target writes inputs and outputs;
* `Use`, `Expansion` — the tokens of a placeholder, and which inputs it uses and how;
* `Condition.holds` — decides a condition when a pipeline is compiled;
* `Placeholder.expand`, `Placeholder.expandAll` — the tokens of placeholders;
* `Component.commandLine` — the command line of a container component;
* `Launch` — what the documents of all targets have in common: an image with its command line and
  environment, where absent parts are left out.
-/

/-- How a target writes the value of an input parameter, the path and, if it can, the value of an
    input artifact, and the path of an output artifact. -/
structure Accessors where
  parameterValue : String → String
  artifactPath : String → String
  outputPath : String → String
  artifactValue? : Option (String → String) := none

/-- How a command line uses an input: as a parameter, or as a file. -/
inductive Use where
  | byValue (input : String)
  | byPath (input : String)
deriving Repr, DecidableEq

/-- Tokens, and the uses of inputs in them, in order. -/
structure Expansion where
  tokens : List String := []
  uses : List Use := []
deriving Repr, DecidableEq

namespace Expansion

/-- One expansion behind another. -/
def append (a b : Expansion) : Expansion :=
  { tokens := a.tokens ++ b.tokens, uses := a.uses ++ b.uses }

instance : Append Expansion := ⟨append⟩

/-- All tokens of an expansion as one. -/
def joined (e : Expansion) : Expansion := { e with tokens := [String.join e.tokens] }

/-- The inputs used as parameters, in the order of their first use. -/
def valueInputs (e : Expansion) : List String :=
  (e.uses.filterMap fun | .byValue input => some input | .byPath _ => none).foldl insertNew []

/-- The inputs used as files, in the order of their first use. -/
def pathInputs (e : Expansion) : List String :=
  (e.uses.filterMap fun | .byPath input => some input | .byValue _ => none).foldl insertNew []

end Expansion

/-- What placeholders are expanded with.  `parameters` are the inputs that a target with access
    to the values of artifacts gets as parameters; without it all inputs are. -/
structure Expander where
  component : Component
  arguments : Keyed Argument
  accessors : Accessors
  parameters : Option (List String) := none

/-- Whether a text stands for truth. -/
def isTrueText (s : String) : Bool := Text.lower s == "true"

/-- Decides a condition: an input is present when it is bound, and its value counts when it is a
    literal. -/
def Condition.holds (arguments : Keyed Argument) : Condition → Except Failure Bool
  | .bool b => .ok b
  | .text s => .ok (isTrueText s)
  | .isPresent input => .ok (Keyed.has arguments input)
  | .inputValue input =>
    match Keyed.find? arguments input with
    | none => .ok false
    | some (.literal s) => .ok (isTrueText s)
    | some _ => .error (.ofCause (.runtimeCondition input))

namespace Expander

/-- Refuses an input that is not declared. -/
def checkInput (x : Expander) (input : String) : Except Failure Unit :=
  if input ∈ x.component.inputNames then .ok ()
  else .error (.ofCause (.undeclaredInput input))

/-- The value of an input.  An artifact is read from its file if the target can do that. -/
def inputValue (x : Expander) (input : String) : Expansion :=
  let asParameter : Expansion :=
    { tokens := [x.accessors.parameterValue input], uses := [.byValue input] }
  match x.accessors.artifactValue?, x.parameters with
  | some artifactValue, some parameters =>
    if input ∈ parameters then asParameter
    else { tokens := [artifactValue input], uses := [.byPath input] }
  | _, _ => asParameter

/-- The path of an input. -/
def inputPath (x : Expander) (input : String) : Expansion :=
  { tokens := [x.accessors.artifactPath input], uses := [.byPath input] }

/-- The path of an output, which has to be declared. -/
def outputPath (x : Expander) (output : String) : Except Failure Expansion :=
  if output ∈ x.component.outputNames then .ok { tokens := [x.accessors.outputPath output] }
  else .error (.ofCause (.undeclaredOutput output))

end Expander

namespace Placeholder

mutual

/-- The expansion of a placeholder. -/
def expand (x : Expander) : Placeholder → Except Failure Expansion
  | .literal text => .ok { tokens := [text] }
  | .inputValue input => do
    x.checkInput input
    pure (x.inputValue input)
  | .inputPath input => do
    x.checkInput input
    pure (x.inputPath input)
  | .outputPath output => x.outputPath output
  | .concat items => (expandAll x items).map Expansion.joined
  | .branch condition yes no => do
    if ← condition.holds x.arguments then expandAll x yes else expandElse x no

/-- The expansions of placeholders, one behind another. -/
def expandAll (x : Expander) : List Placeholder → Except Failure Expansion
  | [] => .ok {}
  | item :: rest => do
    let first ← expand x item
    let others ← expandAll x rest
    pure (first ++ others)

/-- The expansion of a branch that may be absent. -/
def expandElse (x : Expander) : Option (List Placeholder) → Except Failure Expansion
  | none => .ok {}
  | some items => expandAll x items

end

end Placeholder

/-- The command line of a container for a target.  Inputs are listed in the order of their first
    use. -/
structure CommandLine where
  command : Option (List String)
  args : Option (List String)
  env : Keyed String
  valueInputs : List String
  pathInputs : List String
deriving Repr, DecidableEq

/-- The values of environment variables, each of which is one token. -/
def Expander.environment (x : Expander) :
    Keyed Placeholder → Except Failure (Keyed String × List Use)
  | [] => .ok ([], [])
  | (name, value) :: rest => do
    let first ← value.expand x
    let (others, uses) ← x.environment rest
    pure ((name, String.join first.tokens) :: others, first.uses ++ uses)

/-- The command line of a container: command, arguments and environment in this order. -/
def Expander.commandLine (x : Expander) (container : Container) : Except Failure CommandLine := do
  let command ← Placeholder.expandElse x container.command
  let args ← Placeholder.expandElse x container.args
  let (env, uses) ← x.environment container.env
  let all : Expansion := { uses := command.uses ++ args.uses ++ uses }
  pure { env
         command := container.command.map fun _ => command.tokens
         args := container.args.map fun _ => args.tokens
         valueInputs := all.valueInputs
         pathInputs := all.pathInputs }

/-- The command line of a component that a container implements. -/
def Component.commandLine (c : Component) (arguments : Keyed Argument) (accessors : Accessors)
    (parameters : Option (List String) := none) : Except Failure CommandLine :=
  match c.implementation with
  | .container container =>
    Expander.commandLine { component := c, arguments, accessors, parameters } container
  | .graph _ => .error (.refusal .notAContainer)

/-! ### What a container runs -/

/-- An image with its command line and environment. -/
structure Launch where
  image : Value
  command : Option (List String) := none
  args : Option (List String) := none
  env : Keyed String := []

namespace Launch

/-- The launch of a container with its command line. -/
def ofCommandLine (image : String) (line : CommandLine) : Launch :=
  { image := .str image, command := line.command, args := line.args, env := line.env }

/-- An environment variable. -/
def envEntry (entry : String × String) : Value :=
  .ofFields [("name", .str entry.1), ("value", .str entry.2)]

/-- The fields of a container in a document. -/
def fields (l : Launch) : Keyed Value :=
  [("image", l.image)]
    ++ (l.command.toList.map fun tokens => ("command", Value.ofTexts tokens))
    ++ (l.args.toList.map fun tokens => ("args", Value.ofTexts tokens))
    ++ (if l.env.isEmpty then [] else [("env", .list (l.env.map envEntry))])

end Launch

end PipelineCompiler
