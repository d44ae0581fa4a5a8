import PipelineCompiler.Binding
import PipelineCompiler.Context

namespace PipelineCompiler

/-!
# Building on an open context

A context is one object, and all calls on it share it.  Every step of a build gets the context as it
stands, and what it makes of it stays, also when the step fails.

* `OpenContext` — a context and what was noted in it so far;
* `Build` — a step of a build, which may read and write all of an open context;
* `Build.settings` — the section of the configuration for the target, as it stands;
* `Build.log`, `Build.warn`, `Build.within` — note an event or a warning, attribute a failure;
* `Build.argument`, `Build.rootText`, `Build.rootTexts` — what inputs are bound to.
-/

/-- A context with the events for its observers and the warnings by task. -/
structure OpenContext where
  context : Context
  events : List (Keyed Value) := []
  warnings : Keyed (List String) := []

/-- A step of a build.  It may change everything in the context, and a failure undoes nothing. -/
abbrev Build := ExceptT Failure (StateM OpenContext)

/-- The context with one more event. -/
def OpenContext.logged (o : OpenContext) (task level message : String) (extra : Keyed Value) :
    OpenContext :=
  { o with events := o.events ++ [eventFields o.context.target task level message extra] }

/-- The context with one more warning, of which there is an event as well. -/
def OpenContext.warned (o : OpenContext) (task message : String) : OpenContext :=
  let key := taskKey task
  let texts := (Keyed.find? o.warnings key).getD []
  { o with warnings := Keyed.put o.warnings key (texts ++ [message]) }.logged
    key "WARNING" message []

namespace Build

/-- The settings of the target as they stand. -/
def settings : Build Settings := do
  let o ← get
  o.context.settings

/-- Notes an event. -/
def log (task level message : String) (extra : Keyed Value := []) : Build Unit :=
  modify fun o => o.logged task level message extra

/-- Notes an event whose extra fields come from a caller.  They may not be named like the parts of
    the note or like the context itself. -/
def logGiven (task level message : String) (extra : Keyed Value) : Build Unit :=
  if (Keyed.keys extra).any fun name => name ∈ ["self", "task_id", "level", "message"] then
    throw .illTyped
  else log task level message extra

/-- Notes a warning. -/
def warn (task message : String) : Build Unit := modify fun o => o.warned task message

/-- Attributes a compilation error to a task. -/
def within (taskId : String) (x : Build α) : Build α :=
  ExceptT.mk do
    let result ← x.run
    pure (withinTask taskId result)

/-- What an input is bound to, as `InputSpec.bound` says. -/
def bound (input : InputSpec) (given : Option α) (literal : String → α) (task : String) :
    Build α :=
  match given, input.default with
  | some found, _ => pure found
  | none, some text => pure (literal text)
  | none, none =>
    if input.isOptional then do
      warn task <| s!"Input \"{input.name}\" is optional, but command-line " ++
        "still uses it when it's not present."
      pure (literal "")
    else throw (.ofCause (.missingArgument input.name))

/-- The argument of an input in a task. -/
def argument (input : InputSpec) (arguments : Keyed Argument) (task : String) : Build Argument :=
  bound input (Keyed.find? arguments input.name) .literal task

/-- The text of an input of a whole pipeline. -/
def rootText (input : InputSpec) (texts : Keyed String) : Build String :=
  bound input (Keyed.find? texts input.name) id ""

/-- The texts that a caller gives for the inputs of a whole pipeline, behind the defaults.  An
    argument that no input takes is kept, with a warning. -/
def rootTexts (c : Component) (arguments : Keyed Value) : Build (Keyed String) := do
  (Keyed.keys arguments).forM fun name =>
    if name ∈ c.inputNames then pure ()
    else warn "" s!"Pipeline argument \"{name}\" does not match any pipeline input"
  let defaults := c.inputs.filterMap fun input => input.default.map fun text => (input.name, text)
  let given ← plainTexts arguments
  pure (given.foldl (fun texts entry => Keyed.put texts entry.1 entry.2) defaults)

end Build
end PipelineCompiler
