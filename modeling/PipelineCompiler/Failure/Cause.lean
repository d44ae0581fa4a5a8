import PipelineCompiler.Failure.Diagnosis

namespace PipelineCompiler

/-!
# Causes of compilation errors

* `SpecFault` — what can be wrong with a serialized component;
* `PlaceholderFault` — what can be wrong with a placeholder, a condition or an argument;
* `BrokenReference` — the references of a graph that lead nowhere;
* `Cause` — every cause of a compilation error;
* `Cause.diagnosis` — its kind, wording, details and hint;
* `CompilationError` — a cause with the path of tasks it belongs to.
-/

/-- What can be wrong with a serialized component. -/
inductive SpecFault where
  | notAComponent
  | notAMapping (what : String)
  | notAList (what : String)
  | notBoolean (what : String)
  | missing (what : String)
  /-- The placeholder `kind` has no name of an input or output (`noun` says which). -/
  | unnamed (kind noun : String)
  /-- Two inputs or two outputs (`noun` says which) with one name. -/
  | duplicate (noun name : String)
  | notText (typeName : String)
  | unknownArgument (found : Value)
  | unknownArgumentKind (kind : Value)
  | argumentNotAMapping (kind : Value)
  /-- The keys of an implementation that is neither a container nor a graph, in order. -/
  | unsupportedImplementation (keys : List Value)
  | outputNotFromTask (output : Value)
  /-- A component given as text that is no document. -/
  | unreadableText
  | missingPath
  | missingFile (path : String)
  | unsupportedFormat (suffix : String)
  | unreadableFile
  /-- A scalar in a file that stands for no value, with the reason. -/
  | unreadableValue (reason : String)
  | emptyFile

/-- The plain forms of keys, in order. -/
def keyDetails (keys : List Value) : Keyed Value :=
  [("keys", .ofTexts ((keys.map Value.text).mergeSort fun s t =>
    !decide (Text.codes t < Text.codes s)))]

/-- The wording. -/
def SpecFault.message : SpecFault → String
  | .notAComponent => "ComponentSpec must be a mapping/dict"
  | .notAMapping what => s!"{what} must be a mapping"
  | .notAList what => s!"{what} must be a list"
  | .notBoolean what => s!"{what} must be boolean"
  | .missing what => s!"{what} is required"
  | .unnamed kind noun => s!"{kind} must name an {noun}"
  | .duplicate noun name => s!"duplicate {noun} name: {name}"
  | .notText typeName => s!"expected a string, got {typeName}"
  | .unknownArgument found => "Unknown kind of task argument: " ++ found.debug
  | .unknownArgumentKind kind => "Unknown kind of task argument: " ++ kind.text
  | .argumentNotAMapping kind => kind.text ++ " must be a mapping"
  | .unsupportedImplementation keys =>
    "Unsupported component implementation kind: " ++ (Value.list keys).debug
  | .outputNotFromTask output =>
    "graph.outputValues." ++ output.text ++ " must be a taskOutput argument"
  | .unreadableText => "componentRef.text is not valid YAML: <parser message>"
  | .missingPath => "component path is required"
  | .missingFile path => s!"component file not found: {path}"
  | .unsupportedFormat suffix => s!"unsupported component format: {suffix}"
  | .unreadableFile => "<parser message>"
  | .unreadableValue reason => reason
  | .emptyFile => "component file is empty"

/-- The details, where there are any. -/
def SpecFault.details : SpecFault → Keyed Value
  | .unknownArgumentKind kind => [("kind", kind)]
  | .unsupportedImplementation keys => keyDetails keys
  | .missingFile path => [("path", .str path)]
  | _ => []

/-- What can be wrong with a placeholder, a condition or an argument. -/
inductive PlaceholderFault where
  /-- A mapping that should have one key has these, in order. -/
  | notOneKey (what : String) (keys : List Value)
  | unknownConditionKind (kind : Value)
  | unknownCondition (typeName : String)
  | unknownItem (found : Value)
  | unknownKind (kind : Value)

/-- The wording. -/
def PlaceholderFault.message : PlaceholderFault → String
  | .notOneKey what keys =>
    what ++ " must have exactly one key, got: " ++ (Value.list keys).debug
  | .unknownConditionKind kind => "Unexpected condition kind: " ++ kind.text
  | .unknownCondition typeName => "Unexpected condition kind: " ++ typeName
  | .unknownItem found => "Unknown kind of command-line argument: " ++ found.debug
  | .unknownKind kind => "Unknown kind of command-line argument: " ++ kind.text

/-- The details. -/
def PlaceholderFault.details : PlaceholderFault → Keyed Value
  | .notOneKey _ keys => keyDetails keys
  | .unknownConditionKind kind | .unknownKind kind => [("kind", kind)]
  | .unknownCondition typeName => [("kind", .str typeName)]
  | .unknownItem found => [("kind", .str found.typeName)]

/-- A reference of a graph that leads nowhere. -/
inductive BrokenReference where
  | graphInput (input : String)
  | task (task output : String)
  | taskOutput (task output : String)
deriving Repr, DecidableEq

/-- The wording. -/
def BrokenReference.message : BrokenReference → String
  | .graphInput input => s!"Argument references unknown graph input \"{input}\""
  | .task id _ => s!"Argument references unknown task \"{id}\""
  | .taskOutput id output => s!"Task \"{id}\" has no output \"{output}\""

/-- The details. -/
def BrokenReference.details : BrokenReference → Keyed Value
  | .graphInput input => [("input", .str input)]
  | .task id output | .taskOutput id output => [("task", .str id), ("output", .str output)]

/-- Every cause of a compilation error. -/
inductive Cause where
  | spec (fault : SpecFault)
  | placeholder (fault : PlaceholderFault)
  | undeclaredInput (input : String)
  | undeclaredOutput (output : String)
  | runtimeCondition (input : String)
  | missingArgument (input : String)
  | constantArtifact (input : String)
  | nestedGraph (component : Value)
  | unresolvedReference (component url : Value)
  | broken (reference : BrokenReference)
  | brokenOutput (graphOutput : String) (reference : BrokenReference)
  /-- The tasks that lie on a cycle or need one, in order. -/
  | cycle (tasks : List String)

/-- Kind, wording, details and hint of a cause. -/
def Cause.diagnosis : Cause → Diagnosis
  | .spec fault =>
    { kind := .invalidComponent, message := fault.message, details := fault.details }
  | .placeholder fault =>
    { kind := .unknownPlaceholder, message := fault.message, details := fault.details }
  | .undeclaredInput input =>
    { kind := .danglingReference
      message := s!"Command line references undeclared input \"{input}\""
      details := [("input", .str input)] }
  | .undeclaredOutput output =>
    { kind := .danglingReference
      message := s!"Command line references undeclared output \"{output}\""
      details := [("output", .str output)] }
  | .runtimeCondition input =>
    { kind := .runtimeCondition
      message := "Using runtime conditions in component command line placeholders " ++
        "is not supported yet."
      details := [("input", .str input)]
      hint := some "Bind the input to a constant value or use isPresent." }
  | .missingArgument input =>
    { kind := .missingArgument
      message := s!"Argument was not provided for required input \"{input}\""
      details := [("input", .str input)]
      hint := some "Pass an argument or declare a default value for the input." }
  | .constantArtifact input =>
    { kind := .constantArtifact
      message := s!"Constant value cannot be passed to input \"{input}\" consumed as a file"
      details := [("input", .str input)]
      hint := some
        "Produce the value with an upstream task or pass it as a pipeline argument." }
  | .nestedGraph component =>
    { kind := .nestedGraph
      message := "Nested graph components are not supported by Vertex AI Pipelines"
      details := [("component", component)]
      hint := some "Compile the pipeline with the Argo target or flatten the nested graph." }
  | .unresolvedReference component url =>
    { kind := .unresolvedReference
      message := "Task does not have componentRef.spec"
      details := [("component", component), ("url", url)]
      hint := some "Load the component before compiling the pipeline." }
  | .broken reference =>
    { kind := .danglingReference, message := reference.message, details := reference.details }
  | .brokenOutput graphOutput reference =>
    { kind := .danglingReference
      message := s!"Graph output \"{graphOutput}\": " ++ reference.message
      details := reference.details ++ [("graph_output", .str graphOutput)] }
  | .cycle tasks =>
    { kind := .cyclicGraph
      message := "Cycle detected in task dependency graph"
      details := [("tasks", .ofTexts tasks)] }

/-- A cause, and the tasks it belongs to, from the outermost graph inwards. -/
structure CompilationError where
  cause : Cause
  taskPath : List String := []

/-- The error seen from the graph that holds the task `taskId`. -/
def CompilationError.within (e : CompilationError) (taskId : String) : CompilationError :=
  { e with taskPath := taskId :: e.taskPath }

/-- The diagnosis of an error. -/
def CompilationError.diagnosis (e : CompilationError) : Diagnosis :=
  { e.cause.diagnosis with taskPath := e.taskPath }

end PipelineCompiler
