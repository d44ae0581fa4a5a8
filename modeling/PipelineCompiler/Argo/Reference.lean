import PipelineCompiler.CommandLine
import PipelineCompiler.Graph.Order
import PipelineCompiler.Naming.Policy

namespace PipelineCompiler.Argo

/-!
# References in workflows

Within a workflow, values are passed on by references, which are texts of a certain form.

* `Reference`, `Reference.text` — what a binding refers to, and how that is written;
* `accessors` — how command lines refer to inputs and outputs;
* `referencedTasks` — the tasks whose outputs a text refers to, whoever wrote it.
-/

/-- A text between double braces. -/
def braced (s : String) : String := "\x7b\x7b" ++ s ++ "\x7d\x7d"

/-- What a binding refers to.  Names of parameters and artifacts are already legal. -/
inductive Reference where
  | constant (text : String)
  /-- An input of the surrounding template. -/
  | parameter (name : String)
  | artifact (name : String)
  /-- An output of a task of the surrounding template. -/
  | taskParameter (task name : String)
  | taskArtifact (task name : String)
deriving Repr, DecidableEq

/-- The written form of a reference. -/
def Reference.text : Reference → String
  | .constant text => text
  | .parameter name => braced s!"inputs.parameters.{name}"
  | .artifact name => braced s!"inputs.artifacts.{name}"
  | .taskParameter task name => braced s!"tasks.{task}.outputs.parameters.{name}"
  | .taskArtifact task name => braced s!"tasks.{task}.outputs.artifacts.{name}"

/-- How command lines refer to inputs and outputs.  There is no access to the value of an
    artifact. -/
def accessors : Accessors :=
  { parameterValue := fun input => braced s!"inputs.parameters.{sanitizeIoName input}"
    artifactPath := fun input => braced s!"inputs.artifacts.{sanitizeIoName input}.path"
    outputPath := fun output => braced s!"outputs.artifacts.{sanitizeIoName output}.path" }

/-! ### Tasks in texts -/

/-- A list without a beginning. -/
def dropStart? [BEq α] : List α → List α → Option (List α)
  | [], rest => some rest
  | _ :: _, [] => none
  | a :: start, b :: rest => if a == b then dropStart? start rest else none

/-- How a reference to an output of a task begins, before and after the name of the task. -/
def taskOpening : List Char := "\x7b\x7btasks.".toList

/-- What follows the name of the task. -/
def taskClosing : List Char := ".outputs.".toList

/-- The task that a text refers to at its beginning. -/
def leadingTask? (cs : List Char) : Option (List Char) := do
  let rest ← dropStart? taskOpening cs
  let name := rest.takeWhile (· != '.')
  let _ ← dropStart? taskClosing (rest.dropWhile (· != '.'))
  if name.isEmpty then none else some name

/-- The tasks that a text refers to, in order, after `skip` characters. -/
def scanTasks : (skip : Nat) → List Char → List String
  | _, [] => []
  | skip + 1, _ :: rest => scanTasks skip rest
  | 0, c :: rest =>
    match leadingTask? (c :: rest) with
    | some name =>
      String.ofList name
        :: scanTasks (taskOpening.length + name.length + taskClosing.length - 1) rest
    | none => scanTasks 0 rest

/-- The tasks whose outputs some texts refer to, in order and without repetitions. -/
def referencedTasks (texts : List String) : List String :=
  sortedTexts (texts.flatMap fun text => scanTasks 0 text.toList)

end PipelineCompiler.Argo
