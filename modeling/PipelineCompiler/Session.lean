import PipelineCompiler.Argo.Live
import PipelineCompiler.Vertex.Live

namespace PipelineCompiler

/-!
# Sessions

One context may serve many calls: notes, arguments of inputs and whole compilations, in any order,
and some of them fail.

* `Context.Call`, `Context.Answer` — a call and what it gives back;
* `Context.Call.perform` — what a call does with the context it is made on;
* `OpenContext.create` — a new context;
* `OpenContext.answer`, `OpenContext.after`, `OpenContext.run` — the answer to a call, and the
  context after it and after some calls.
-/

/-- A call on a context. -/
inductive Context.Call where
  | log (task level message : String) (extra : Keyed Value)
  | warn (task message : String)
  | argument (input : InputSpec) (arguments : Keyed Argument) (task : String)
  | argo (component : Component) (arguments : Keyed Value)
  | vertex (component : Component) (arguments : Keyed Value) (outputDirectory contextName : String)

/-- What a call gives back. -/
inductive Context.Answer where
  | nothing
  | argument (found : Argument)
  | document (found : Value)

/-- What a call does. -/
def Context.Call.perform : Context.Call → Build Context.Answer
  | .log task level message extra => do
    Build.logGiven task level message extra
    pure .nothing
  | .warn task message => do
    Build.warn task message
    pure .nothing
  | .argument input arguments task => do
    let found ← Build.argument input arguments task
    pure (.argument found)
  | .argo component arguments => do
    let workflow ← Argo.Live.compile component arguments
    pure (.document workflow.toValue)
  | .vertex component arguments outputDirectory contextName => do
    let job ← Vertex.Live.compile component arguments outputDirectory contextName
    pure (.document job.toValue)

namespace OpenContext

/-- A new context, whose overrides are laid over the default configuration.  Its first event is that
    of its creation. -/
def create (target : String) (overrides metadata : Value) : Except Failure OpenContext := do
  let config ← Config.load none overrides
  let metadata ← Value.mappingOrEmpty metadata
  let o : OpenContext := { context := { target, config, metadata } }
  let hash ← o.context.hash
  pure (o.logged "" "INFO" "compilation started" [("config_hash", .str hash)])

/-- The answer to a call, or its failure. -/
def answer (o : OpenContext) (call : Context.Call) : Except Failure Context.Answer :=
  (call.perform.run.run o).1

/-- The context after a call, whether it fails or not. -/
def after (o : OpenContext) (call : Context.Call) : OpenContext := (call.perform.run.run o).2

/-- The context after some calls. -/
def run (o : OpenContext) (calls : List Context.Call) : OpenContext := calls.foldl after o

end OpenContext
end PipelineCompiler
