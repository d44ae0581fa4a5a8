import PipelineCompiler.Component.Placeholder
import PipelineCompiler.Source
import PipelineCompiler.Value.Pairs

namespace PipelineCompiler

/-!
# Loading components

* `InputSpec.ofValues`, `OutputSpec.ofValues`, `Container.ofValue` — the parts without tasks;
* `Component.ofValueWith` — a component whose tasks may hold components as text, given a reader
  of such text;
* `Component.parse` — a component from a value, however deep that is;
* `Component.callsFor` — how many calls are open at once while it is read;
* `Component.ofValue`, `Component.ofFile` — a component from a value or a file, within the limit
  on calls.
-/

/-! ### Lists -/

/-- The items of a list; everything empty is an empty list. -/
def itemsOf (what : String) (v : Value) : Except Failure (List Value) :=
  if v.isTruthy then
    match v.bare with
    | .list items => .ok items
    | _ => .error (.ofSpec (.notAList what))
  else .ok []

/-! ### Interfaces -/

/-- The name of the input or output (`noun` says which) at a place, which no earlier one has. -/
def declaredName (noun place : String) (seen : List String) (fields : Value.Entries) :
    Except Failure String :=
  match nameOf? (Value.fieldOrNull fields "name") with
  | none => .error (.ofSpec (.missing (place ++ ".name")))
  | some name =>
    if name ∈ seen then .error (.ofSpec (.duplicate noun name)) else .ok name

/-- The fields of the item at a place. -/
def fieldsAt (place : String) (v : Value) : Except Failure Value.Entries :=
  match v.bare with
  | .map fields => .ok fields
  | _ => .error (.ofSpec (.notAMapping place))

/-- The default of an input, as text. -/
def defaultText : Value → Except Failure (Option String)
  | .null => .ok none
  | v => do
    match ← scalarText? v with
    | some text => pure (some text)
    | none => throw (.ofSpec (.notText v.typeName))

/-- Whether an input is declared optional. -/
def optionality (place : String) (fields : Value.Entries) : Except Failure Bool :=
  match Value.field? fields "optional" with
  | none => .ok false
  | some (.bool b) => .ok b
  | some _ => .error (.ofSpec (.notBoolean (place ++ ".optional")))

/-- Reads the input at a place. -/
def InputSpec.ofValue (place : String) (seen : List String) (v : Value) :
    Except Failure InputSpec := do
  let fields ← fieldsAt place v
  let name ← declaredName "input" place seen fields
  let isOptional ← optionality place fields
  let default ← defaultText (Value.fieldOrNull fields "default")
  let annotations ← Value.mappingOrEmpty (Value.fieldOrNull fields "annotations")
  pure { name, default, isOptional, annotations
         type := Value.fieldOrNull fields "type"
         description := Value.fieldOrNull fields "description" }

/-- Reads inputs from the place `index` on. -/
def InputSpec.ofItems (seen : List String) : (index : Nat) → List Value →
    Except Failure (List InputSpec)
  | _, [] => .ok []
  | index, item :: rest => do
    let input ← InputSpec.ofValue s!"inputs[{index}]" seen item
    let others ← InputSpec.ofItems (seen ++ [input.name]) (index + 1) rest
    pure (input :: others)

/-- Reads the inputs of a component. -/
def InputSpec.ofValues (v : Value) : Except Failure (List InputSpec) := do
  InputSpec.ofItems [] 0 (← itemsOf "inputs" v)

/-- Reads the output at a place. -/
def OutputSpec.ofValue (place : String) (seen : List String) (v : Value) :
    Except Failure OutputSpec := do
  let fields ← fieldsAt place v
  let name ← declaredName "output" place seen fields
  let annotations ← Value.mappingOrEmpty (Value.fieldOrNull fields "annotations")
  pure { name, annotations
         type := Value.fieldOrNull fields "type"
         description := Value.fieldOrNull fields "description" }

/-- Reads outputs from the place `index` on. -/
def OutputSpec.ofItems (seen : List String) : (index : Nat) → List Value →
    Except Failure (List OutputSpec)
  | _, [] => .ok []
  | index, item :: rest => do
    let output ← OutputSpec.ofValue s!"outputs[{index}]" seen item
    let others ← OutputSpec.ofItems (seen ++ [output.name]) (index + 1) rest
    pure (output :: others)

/-- Reads the outputs of a component. -/
def OutputSpec.ofValues (v : Value) : Except Failure (List OutputSpec) := do
  OutputSpec.ofItems [] 0 (← itemsOf "outputs" v)

/-! ### Mappings with named entries -/

/-- The entries of a mapping that may be empty. -/
def namedEntries (what : String) (v : Value) : Except Failure Value.Entries :=
  if v.isTruthy then
    match v.bare with
    | .map entries => .ok entries
    | _ => .error (.ofSpec (.notAMapping what))
  else .ok []

/-- Reads the values of a mapping, each under the plain form of its key. -/
def readEntries (read : Value → Except Failure α) (entries : Value.Entries) :
    Except Failure (Keyed α) :=
  entries.foldlM (fun done entry => do
    let name ← entry.1.shownText
    let found ← read entry.2
    pure (Keyed.put done name found)) []

/-! ### Containers -/

/-- Reads a command line that may be absent. -/
def commandLine (what : String) : Value → Except Failure (Option (List Placeholder))
  | .null => .ok none
  | v => (Placeholder.listOf what v).map some

/-- Reads a container. -/
def Container.ofValue (v : Value) : Except Failure Container := do
  let .map fields := v.bare
    | throw (.ofSpec (.notAMapping "implementation.container"))
  let some image := nameOf? (Value.fieldOrNull fields "image")
    | throw (.ofSpec (.missing "container.image"))
  let env ← namedEntries "container.env" (Value.fieldOrNull fields "env")
  let command ← commandLine "container.command" (Value.fieldOrNull fields "command")
  let args ← commandLine "container.args" (Value.fieldOrNull fields "args")
  let env ← readEntries Placeholder.parse env
  pure { image, command, args, env }

/-! ### Graphs -/

/-- Reads the outputs of a graph, each of which is an output of a task. -/
def outputValuesOf (v : Value) : Except Failure (List (String × TaskOutput)) := do
  if v.isTruthy then
    let .map entries := v.bare | throw .illTyped
    entries.foldlM (fun done entry => do
      let argument ← Argument.parse entry.2
      let name ← entry.1.shownText
      match argument with
      | .taskOutput source => pure (Keyed.put done name source)
      | _ => throw (.ofSpec (.outputNotFromTask entry.1))) []
  else pure []

/-- The fault of an implementation that is neither a container nor a graph.  Keys that have no
    order cannot be listed. -/
def unsupportedImplementation (fields : Value.Entries) : Failure :=
  match Value.arranged? (fields.map (·.1)) with
  | some keys => .showing keys (.ofSpec (.unsupportedImplementation keys))
  | none => .illTyped

/-- A result for the task with a key.  The name of the task is needed in any case, unless an
    accident happened before. -/
def underTask (key : Value) (result : Except Failure α) : Except Failure (String × α) :=
  if key.isShown then (withinTask key.text result).map fun found => (key.text, found)
  else
    match result with
    | .error (.accident found) => .error (.accident found)
    | _ => .error .invalidValue

namespace Component

mutual

/-- Reads a component. -/
def ofValueWith (readText : String → Except Failure Component) :
    Value → Except Failure Component
  | .map fields => do
    let implementation ← implementationField readText fields
    let inputs ← InputSpec.ofValues (Value.fieldOrNull fields "inputs")
    let outputs ← OutputSpec.ofValues (Value.fieldOrNull fields "outputs")
    let metadata ← Value.mappingOrEmpty (Value.fieldOrNull fields "metadata")
    pure { implementation, inputs, outputs, metadata
           name := Value.fieldOrNull fields "name"
           description := Value.fieldOrNull fields "description" }
  | .placed _ v => ofValueWith readText v
  | .endless => .error .illTyped
  | _ => .error (.ofSpec .notAComponent)

/-- Reads the field that says how a component is implemented. -/
def implementationField (readText : String → Except Failure Component) :
    List (Value × Value) → Except Failure Implementation
  | [] => .error (.ofSpec (.missing "implementation"))
  | (key, value) :: rest =>
    if key == .str "implementation" then implementationOf readText value
    else implementationField readText rest

/-- Reads an implementation; a container goes before a graph. -/
def implementationOf (readText : String → Except Failure Component) :
    Value → Except Failure Implementation
  | .map fields =>
    match Value.field? fields "container" with
    | some container => (Container.ofValue container).map .container
    | none => graphField readText fields fields
  | .placed _ v => implementationOf readText v
  | .endless => .error .illTyped
  | _ => .error (.ofSpec (.notAMapping "implementation"))

/-- Reads the graph among the fields of an implementation. -/
def graphField (readText : String → Except Failure Component) (fields : Value.Entries) :
    List (Value × Value) → Except Failure Implementation
  | [] => .error (unsupportedImplementation fields)
  | (key, value) :: rest =>
    if key == .str "graph" then (graphOf readText value).map .graph
    else graphField readText fields rest

/-- Reads a graph. -/
def graphOf (readText : String → Except Failure Component) : Value → Except Failure Graph
  | .map fields => do
    let tasks ← tasksField readText fields
    let outputValues ← outputValuesOf (Value.fieldOrNull fields "outputValues")
    pure { tasks, outputValues }
  | .placed _ v => graphOf readText v
  | .endless => .error .illTyped
  | _ => .error (.ofSpec (.notAMapping "implementation.graph"))

/-- Reads the tasks among the fields of a graph. -/
def tasksField (readText : String → Except Failure Component) :
    List (Value × Value) → Except Failure (List (String × GraphTask))
  | [] => .error (.ofSpec (.notAMapping "graph.tasks"))
  | (key, value) :: rest =>
    if key == .str "tasks" then tasksOf readText value else tasksField readText rest

/-- Reads a mapping of tasks. -/
def tasksOf (readText : String → Except Failure Component) :
    Value → Except Failure (List (String × GraphTask))
  | .map entries => taskEntries readText [] entries
  | .placed _ v => tasksOf readText v
  | .endless => .error .illTyped
  | _ => .error (.ofSpec (.notAMapping "graph.tasks"))

/-- Reads tasks one after another, behind those that are `done`. -/
def taskEntries (readText : String → Except Failure Component)
    (done : List (String × GraphTask)) :
    List (Value × Value) → Except Failure (List (String × GraphTask))
  | [] => .ok done
  | (key, value) :: rest => do
    let (id, task) ← underTask key (taskOf readText value)
    taskEntries readText (Keyed.put done id task) rest

/-- Reads a task. -/
def taskOf (readText : String → Except Failure Component) : Value → Except Failure GraphTask
  | .map fields => do
    if (Value.field? fields "componentRef").isNone then
      throw (.ofSpec (.missing "task.componentRef"))
    let arguments ← namedEntries "task.arguments" (Value.fieldOrNull fields "arguments")
    let reference ← referenceField readText fields
    let arguments ← readEntries Argument.parse arguments
    let annotations ← Value.mappingOrEmpty (Value.fieldOrNull fields "annotations")
    pure { reference, arguments, annotations }
  | .placed _ v => taskOf readText v
  | .endless => .error .illTyped
  | _ => .error (.ofSpec (.notAMapping "task"))

/-- Reads the reference among the fields of a task. -/
def referenceField (readText : String → Except Failure Component) :
    List (Value × Value) → Except Failure ComponentReference
  | [] => .error (.ofSpec (.missing "task.componentRef"))
  | (key, value) :: rest =>
    if key == .str "componentRef" then referenceOf readText value
    else referenceField readText rest

/-- Reads a reference.  The component it holds may be given as a value or else as text. -/
def referenceOf (readText : String → Except Failure Component) :
    Value → Except Failure ComponentReference
  | .map fields => do
    let given ← specField readText fields
    let spec ←
      match given, nameOf? (Value.fieldOrNull fields "text") with
      | some spec, _ => pure (some spec)
      | none, some text => (readText text).map some
      | none, none => pure none
    pure { spec
           name := Value.fieldOrNull fields "name"
           digest := Value.fieldOrNull fields "digest"
           tag := Value.fieldOrNull fields "tag"
           url := Value.fieldOrNull fields "url" }
  | .placed _ v => referenceOf readText v
  | .endless => .error .illTyped
  | _ => .error (.ofSpec (.notAMapping "componentRef"))

/-- Reads the component among the fields of a reference; null counts as absent. -/
def specField (readText : String → Except Failure Component) :
    List (Value × Value) → Except Failure (Option Component)
  | [] => .ok none
  | (key, value) :: rest =>
    if key == .str "spec" then
      if value == .null then .ok none else (ofValueWith readText value).map some
    else specField readText rest

end

/-- The failure of a component text that has no value. -/
def textFailure : Unreadable → Failure
  | .malformedYaml => .ofSpec .unreadableText
  | fault => .accident fault.accident

/-- Reads a component from text.  A text inside it is shorter than the text around it, so
    `depth` texts one inside the other are enough when the text has that many characters. -/
def ofText : (depth : Nat) → String → Except Failure Component
  | 0, _ => .error .illTyped
  | depth + 1, text => do
    ofValueWith (ofText depth) (← (Format.yaml.read text).mapError textFailure)

/-- Reads a component, however many calls that takes. -/
def parse (v : Value) : Except Failure Component :=
  ofValueWith (fun text => ofText (text.length + 1) text) v

/-- The value in a file that is no empty document. -/
def valueOfFile (file : SourceFile) : Except Failure Value := do
  if ← file.isMissing then throw (.ofSpec (.missingFile file.path.text))
  let text ← file.text
  let some format := Format.ofSuffix? file.path.suffix
    | throw (.ofSpec (.unsupportedFormat (Text.lower file.path.suffix)))
  match format.read text with
  | .error .illTyped => throw .illTyped
  | .error (.invalidValue reason) => throw (.ofSpec (.unreadableValue reason))
  | .error _ => throw (.ofSpec .unreadableFile)
  | .ok .null => throw (.ofSpec .emptyFile)
  | .ok found => pure found

end Component

/-! ### Open calls -/

/-- The calls for the values of a mapping, each of which comes after the plain form of its key. -/
def callsForEntries (read : Value → Except Failure α) (calls : Value → Nat) :
    List (Value × Value) → Nat
  | [] => 0
  | (key, value) :: rest =>
    callsThen key.shownText 0
      (callsThen (read value) (calls value) (callsForEntries read calls rest))

/-- The calls for a command line. -/
def callsForCommandLine : Value → Nat
  | .null => 0
  | v => Placeholder.callsForList v

/-- The calls for a container. -/
def Container.callsFor (v : Value) : Nat :=
  match v.bare with
  | .map fields =>
    let env := namedEntries "container.env" (Value.fieldOrNull fields "env")
    let command := Value.fieldOrNull fields "command"
    let args := Value.fieldOrNull fields "args"
    match nameOf? (Value.fieldOrNull fields "image"), env with
    | some _, .ok env =>
      1 + callsThen (commandLine "container.command" command) (callsForCommandLine command)
        (callsThen (commandLine "container.args" args) (callsForCommandLine args)
          (1 + callsForEntries Placeholder.parse Placeholder.callsFor env))
    | _, _ => 1
  | _ => 1

/-- The calls for the outputs of a graph. -/
def callsForOutputEntries : List (Value × Value) → Nat
  | [] => 0
  | (key, value) :: rest =>
    match Argument.parse value with
    | .ok (.taskOutput _) =>
      max (Argument.callsFor value) (callsThen key.shownText 0 (callsForOutputEntries rest))
    | _ => Argument.callsFor value

/-- The same for a mapping of outputs. -/
def callsForOutputs (v : Value) : Nat :=
  match v.bare with
  | .map entries => callsForOutputEntries entries
  | _ => 0

namespace Component

variable (readText : String → Except Failure Component) (textCalls : String → Nat)

mutual

/-- The calls for a component, if those for the components that are given as text are known. -/
def callsForWith : Value → Nat
  | .map fields => 1 + callsForImplementationField fields
  | .placed _ v => callsForWith v
  | _ => 1

/-- The calls for the field that says how a component is implemented. -/
def callsForImplementationField : List (Value × Value) → Nat
  | [] => 0
  | (key, value) :: rest =>
    if key == .str "implementation" then callsForImplementation value
    else callsForImplementationField rest

/-- The calls for an implementation. -/
def callsForImplementation : Value → Nat
  | .map fields =>
    match Value.field? fields "container" with
    | some container => Container.callsFor container
    | none => callsForGraphField fields
  | .placed _ v => callsForImplementation v
  | _ => 0

/-- The calls for the graph among the fields of an implementation. -/
def callsForGraphField : List (Value × Value) → Nat
  | [] => 0
  | (key, value) :: rest =>
    if key == .str "graph" then callsForGraph value else callsForGraphField rest

/-- The calls for a graph. -/
def callsForGraph : Value → Nat
  | .map fields =>
    1 + callsThen (tasksField readText fields) (callsForTasksField fields)
      (callsForOutputs (Value.fieldOrNull fields "outputValues"))
  | .placed _ v => callsForGraph v
  | _ => 1

/-- The calls for the tasks among the fields of a graph. -/
def callsForTasksField : List (Value × Value) → Nat
  | [] => 0
  | (key, value) :: rest =>
    if key == .str "tasks" then callsForTasks value else callsForTasksField rest

/-- The calls for a mapping of tasks. -/
def callsForTasks : Value → Nat
  | .map entries => callsForTaskEntries entries
  | .placed _ v => callsForTasks v
  | _ => 0

/-- The calls for tasks one after another. -/
def callsForTaskEntries : List (Value × Value) → Nat
  | [] => 0
  | (key, value) :: rest =>
    callsThen (underTask key (taskOf readText value)) (callsForTask value)
      (callsForTaskEntries rest)

/-- The calls for a task. -/
def callsForTask : Value → Nat
  | .map fields =>
    match Value.field? fields "componentRef",
        namedEntries "task.arguments" (Value.fieldOrNull fields "arguments") with
    | some _, .ok arguments =>
      1 + callsThen (referenceField readText fields) (callsForReferenceField fields)
        (1 + callsForEntries Argument.parse Argument.callsFor arguments)
    | _, _ => 1
  | .placed _ v => callsForTask v
  | _ => 1

/-- The calls for the reference among the fields of a task. -/
def callsForReferenceField : List (Value × Value) → Nat
  | [] => 0
  | (key, value) :: rest =>
    if key == .str "componentRef" then callsForReference value else callsForReferenceField rest

/-- The calls for a reference. -/
def callsForReference : Value → Nat
  | .map fields => 1 + callsForSpecField (nameOf? (Value.fieldOrNull fields "text")) fields
  | .placed _ v => callsForReference v
  | _ => 1

/-- The calls for the component among the fields of a reference, or else in its text. -/
def callsForSpecField (text : Option String) : List (Value × Value) → Nat
  | [] => text.elim 0 textCalls
  | (key, value) :: rest =>
    if key == .str "spec" then
      if value == .null then text.elim 0 textCalls else callsForWith value
    else callsForSpecField text rest

end

/-- The calls for a component in a text, inside which there are at most `depth` others. -/
def callsForText : (depth : Nat) → String → Nat
  | 0, _ => 0
  | depth + 1, text =>
    match Format.yaml.read text with
    | .ok v => callsForWith (ofText depth) (callsForText depth) v
    | .error _ => 0

/-- How many calls are open at once at most while a component is read. -/
def callsFor (v : Value) : Nat :=
  callsForWith (fun text => ofText (text.length + 1) text)
    (fun text => callsForText (text.length + 1) text) v

/-- Reads a component with at most `limit` calls open at once. -/
def ofValueWithin (limit : Nat) (v : Value) : Except Failure Component :=
  withinCalls limit (callsFor v) (parse v)

/-- Reads a component. -/
def ofValue (v : Value) : Except Failure Component := ofValueWithin callLimit v

/-- Reads a component from a file, whose name has to be given, with at most `limit` calls open at
    once, one of which is for the file. -/
def ofFileWithin (limit : Nat) (file : SourceFile) : Except Failure Component := do
  if Text.isBlankText file.name then throw (.ofSpec .missingPath)
  let v ← valueOfFile file
  withinCalls limit (1 + callsFor v) (parse v)

/-- Reads a component from a file. -/
def ofFile (file : SourceFile) : Except Failure Component := ofFileWithin callLimit file

end Component
end PipelineCompiler
