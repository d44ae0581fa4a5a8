import PipelineCompiler.Component.Loader
import PipelineCompiler.Proofs.Component.Loaded

namespace PipelineCompiler

/-!
# The serialized form of components

Every component can be written down: placeholders and arguments as mappings with one key that tells
their kind, interfaces as lists, and what is named as mappings.  What is absent is left out, or
written as null or as something empty.

* `Value.optionalField` — a field that may be absent;
* `Placeholder.toValue`, `Argument.toValue`, `InputSpec.toValue`, `OutputSpec.toValue`,
  `Container.toValue` — the parts without tasks;
* `Component.toValue` — the whole;
* `NotBlank`, `Placeholder.IsNamed`, `Argument.IsNamed` — names are not blank;
* `Container.IsProper`, `GraphTask.IsProper`, `Graph.IsProper`, `Component.IsProper` — names are
  not blank, and different where they tell things apart;
* `Component.ShowsTypes` — the types of arguments have texts.
-/

/-! ### Writing -/

section Writing

-- Whether absent fields are written as well.
variable (inFull : Bool)

/-- A field that is left out when it is absent, unless everything is written. -/
def Value.optionalField (name : String) (isAbsent : Bool) (v : Value) : Value.Entries :=
  if isAbsent && !inFull then [] else [(.str name, v)]

/-- A field for a value that is carried along; null counts as absent. -/
def Value.carriedField (name : String) (v : Value) : Value.Entries :=
  optionalField inFull name (v == .null) v

/-- A field for a free-form mapping. -/
def Value.mappingField (name : String) (entries : Value.Entries) : Value.Entries :=
  optionalField inFull name entries.isEmpty (.map entries)

/-- A field for a list. -/
def Value.listField (name : String) (items : List Value) : Value.Entries :=
  optionalField inFull name items.isEmpty (.list items)

/-- A mapping with one key, which tells the kind. -/
def Value.ofKind (kind : String) (v : Value) : Value := .map [(.str kind, v)]

/-- A condition, written down. -/
def Condition.toValue : Condition → Value
  | .bool b => .bool b
  | .text s => .str s
  | .isPresent input => .ofKind "isPresent" (.str input)
  | .inputValue input => .ofKind "inputValue" (.str input)

namespace Placeholder

mutual

/-- A placeholder, written down. -/
def toValue : Placeholder → Value
  | .literal text => .str text
  | .inputValue input => .ofKind "inputValue" (.str input)
  | .inputPath input => .ofKind "inputPath" (.str input)
  | .outputPath output => .ofKind "outputPath" (.str output)
  | .concat items => .ofKind "concat" (.list (toValues items))
  | .branch condition yes no =>
    .ofKind "if" <| .map <|
      [(.str "cond", condition.toValue), (.str "then", .list (toValues yes))] ++ noField no

/-- Placeholders, one after another. -/
def toValues : List Placeholder → List Value
  | [] => []
  | item :: rest => toValue item :: toValues rest

/-- The field of the other branch. -/
def noField : Option (List Placeholder) → Value.Entries
  | none => Value.optionalField inFull "else" true .null
  | some items => [(.str "else", .list (toValues items))]

end

/-- A command line, which may be absent. -/
def lineField (name : String) : Option (List Placeholder) → Value.Entries
  | none => Value.optionalField inFull name true .null
  | some items => [(.str name, .list (toValues inFull items))]

end Placeholder

/-- An output of a task, written down. -/
def TaskOutput.toValue (source : TaskOutput) : Value :=
  .ofKind "taskOutput" <| .map <|
    [(.str "taskId", .str source.task), (.str "outputName", .str source.output)] ++
      Value.carriedField inFull "type" source.type

/-- An argument, written down. -/
def Argument.toValue : Argument → Value
  | .literal text => .str text
  | .graphInput input type =>
    .ofKind "graphInput" <| .map <|
      (.str "inputName", .str input) :: Value.carriedField inFull "type" type
  | .taskOutput source => source.toValue inFull

/-- A declared input, written down. -/
def InputSpec.toValue (input : InputSpec) : Value :=
  .map <| (.str "name", .str input.name) ::
    (Value.carriedField inFull "type" input.type ++
      Value.carriedField inFull "description" input.description ++
      Value.carriedField inFull "default" (input.default.elim .null .str) ++
      Value.optionalField inFull "optional" (!input.isOptional) (.bool input.isOptional) ++
      Value.mappingField inFull "annotations" input.annotations)

/-- A declared output, written down. -/
def OutputSpec.toValue (output : OutputSpec) : Value :=
  .map <| (.str "name", .str output.name) ::
    (Value.carriedField inFull "type" output.type ++
      Value.carriedField inFull "description" output.description ++
      Value.mappingField inFull "annotations" output.annotations)

/-- Named entries, each written down under its name. -/
def Keyed.toEntries {α : Type} (write : α → Value) (entries : Keyed α) : Value.Entries :=
  entries.map fun entry => (.str entry.1, write entry.2)

/-- A container, written down. -/
def Container.toValue (container : Container) : Value :=
  .map <| (.str "image", .str container.image) ::
    (Placeholder.lineField inFull "command" container.command ++
      Placeholder.lineField inFull "args" container.args ++
      Value.mappingField inFull "env" (Keyed.toEntries (Placeholder.toValue inFull) container.env))

namespace Component

mutual

/-- A component, written down. -/
def toValue : Component → Value
  | ⟨implementation, name, description, inputs, outputs, metadata⟩ =>
    .map <|
      Value.carriedField inFull "name" name ++
      Value.carriedField inFull "description" description ++
      Value.listField inFull "inputs" (inputs.map (InputSpec.toValue inFull)) ++
      Value.listField inFull "outputs" (outputs.map (OutputSpec.toValue inFull)) ++
      Value.mappingField inFull "metadata" metadata ++
      [(.str "implementation", implementationValue implementation)]

/-- An implementation, written down. -/
def implementationValue : Implementation → Value
  | .container container => .ofKind "container" (container.toValue inFull)
  | .graph ⟨tasks, outputValues⟩ =>
    .ofKind "graph" <| .map <|
      (.str "tasks", .map (taskEntriesValue tasks)) ::
        Value.mappingField inFull "outputValues"
          (Keyed.toEntries (TaskOutput.toValue inFull) outputValues)

/-- Tasks, each written down under its id. -/
def taskEntriesValue : List (String × GraphTask) → Value.Entries
  | [] => []
  | (id, task) :: rest => (.str id, taskValue task) :: taskEntriesValue rest

/-- A task, written down. -/
def taskValue : GraphTask → Value
  | ⟨⟨name, digest, tag, url, spec⟩, arguments, annotations⟩ =>
    .map <|
      (.str "componentRef", .map <|
        Value.carriedField inFull "name" name ++
        Value.carriedField inFull "digest" digest ++
        Value.carriedField inFull "tag" tag ++
        Value.carriedField inFull "url" url ++
        specEntries spec) ::
      (Value.mappingField inFull "arguments"
          (Keyed.toEntries (Argument.toValue inFull) arguments) ++
        Value.mappingField inFull "annotations" annotations)

/-- The component of a reference, written down if it is there. -/
def specEntries : Option Component → Value.Entries
  | none => Value.optionalField inFull "spec" true .null
  | some component => [(.str "spec", toValue component)]

end

end Component

end Writing

/-! ### Names -/

/-- A name has a character that is not blank. -/
def NotBlank (name : String) : Prop := Text.isBlankText name = false

instance (name : String) : Decidable (NotBlank name) := inferInstanceAs (Decidable (_ = _))

/-- The input of a condition has a name. -/
def Condition.IsNamed : Condition → Prop
  | .bool _ | .text _ => True
  | .isPresent input | .inputValue input => NotBlank input

namespace Placeholder

mutual

/-- All inputs and outputs in a placeholder have names. -/
def IsNamed : Placeholder → Prop
  | .literal _ => True
  | .inputValue name | .inputPath name | .outputPath name => NotBlank name
  | .concat items => AreNamed items
  | .branch condition yes no => condition.IsNamed ∧ AreNamed yes ∧ NoIsNamed no

/-- So have all in some placeholders. -/
def AreNamed : List Placeholder → Prop
  | [] => True
  | item :: rest => IsNamed item ∧ AreNamed rest

/-- So have all in the other branch. -/
def NoIsNamed : Option (List Placeholder) → Prop
  | none => True
  | some items => AreNamed items

end

end Placeholder

/-- An output of a task is named together with its task. -/
structure TaskOutput.IsNamed (source : TaskOutput) : Prop where
  task : NotBlank source.task
  output : NotBlank source.output

/-- What an argument refers to has a name. -/
def Argument.IsNamed : Argument → Prop
  | .literal _ => True
  | .graphInput input _ => NotBlank input
  | .taskOutput source => source.IsNamed

/-- A container has an image, and everything that its command line and environment use is named. -/
structure Container.IsProper (container : Container) : Prop where
  image : NotBlank container.image
  command : Placeholder.NoIsNamed container.command
  args : Placeholder.NoIsNamed container.args
  envKeys : (Keyed.keys container.env).Nodup
  env : ∀ entry ∈ container.env, entry.2.IsNamed

/-- The inputs of a task are bound once each, to something named. -/
structure GraphTask.IsProper (task : GraphTask) : Prop where
  argumentKeys : (Keyed.keys task.arguments).Nodup
  arguments : ∀ entry ∈ task.arguments, entry.2.IsNamed

/-- The tasks and outputs of a graph are told apart by their names. -/
structure Graph.IsProper (g : Graph) : Prop where
  taskKeys : (Keyed.keys g.tasks).Nodup
  tasks : ∀ entry ∈ g.tasks, entry.2.IsProper
  outputKeys : (Keyed.keys g.outputValues).Nodup
  outputValues : ∀ entry ∈ g.outputValues, entry.2.IsNamed

/-- Inputs and outputs have names, each of them its own, and so does everything that the
    implementation uses. -/
structure Component.IsProper (c : Component) : Prop where
  inputs : ∀ name ∈ c.inputNames, NotBlank name
  inputsDiffer : c.inputNames.Nodup
  outputs : ∀ name ∈ c.outputNames, NotBlank name
  outputsDiffer : c.outputNames.Nodup
  container : ∀ container, c.implementation = .container container → container.IsProper
  graph : ∀ g, c.implementation = .graph g → g.IsProper

/-- The type that an argument carries along. -/
def Argument.type : Argument → Value
  | .literal _ => .null
  | .graphInput _ type => type
  | .taskOutput source => source.type

/-- The types of arguments and of the outputs of a graph have texts, as everything has in which no
    number is longer than a number may be in JSON. -/
def Component.ShowsTypes (c : Component) : Prop :=
  ∀ g, c.implementation = .graph g →
    (∀ task ∈ g.tasks, ∀ entry ∈ task.2.arguments, entry.2.type.isShown) ∧
      ∀ entry ∈ g.outputValues, entry.2.type.isShown

end PipelineCompiler
