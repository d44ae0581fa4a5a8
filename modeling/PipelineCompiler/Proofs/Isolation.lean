import PipelineCompiler.Proofs.Argo.Live
import PipelineCompiler.Proofs.Keyed
import PipelineCompiler.Proofs.Refusals
import PipelineCompiler.Proofs.Vertex.Live
import PipelineCompiler.Session

namespace PipelineCompiler

/-!
# Contexts in use

Every call on an open context could change all of it.  None does more than to add its notes, and
none can tell what was done before.

* `Context.perform`, `perform_follows` — a call as a recorded computation, which it follows;
* `perform_congr` — what a call does depends on the target and the configuration alone;
* `OpenContext.run_context` — **a session leaves the context as it is**, by induction on its
  calls;
* `find?_notes` — warnings are only ever added;
* `OpenContext.isolates` — no call can tell what was done before it, and none takes anything back.
-/

/-! ### Calls -/

/-- A call as a recorded computation. -/
def Context.perform (context : Context) : Context.Call → Recorded Context.Answer
  | .log task level message extra => do
    Recorded.logGiven task level message extra
    pure .nothing
  | .warn task message => do
    Recorded.warn task message
    pure .nothing
  | .argument input arguments task => do
    let found ← input.argument arguments task
    pure (.argument found)
  | .argo component arguments => do
    let workflow ← Argo.compile context component arguments
    pure (.document workflow.toValue)
  | .vertex component arguments outputDirectory contextName => do
    let job ← Vertex.compile context component arguments outputDirectory contextName
    pure (.document job.toValue)

/-- **A call follows its record**, on every context. -/
theorem perform_follows (context : Context) (call : Context.Call) :
    Build.Follows context call.perform (context.perform call) := by
  cases call with
  | log => exact .bind (Build.logGiven_follows _ _ _ _) fun _ _ => .pure _
  | warn => exact .bind (.warn _ _) fun _ _ => .pure _
  | argument => exact .bind (Build.argument_follows _ _ _) fun _ _ => .pure _
  | argo => exact .bind (Argo.Live.compile_follows _ _ _) fun _ _ => .pure _
  | vertex => exact .bind (Vertex.Live.compile_follows _ _ _ _ _) fun _ _ => .pure _

namespace OpenContext

/-- The answer to a call is that of its record. -/
theorem answer_eq (o : OpenContext) (call : Context.Call) :
    o.answer call = (o.context.perform call).result :=
  congrArg Prod.fst (perform_follows o.context call o rfl)

/-- A call leaves its notes behind, and nothing else. -/
theorem after_eq (o : OpenContext) (call : Context.Call) :
    o.after call = o.tell (o.context.perform call).notes :=
  congrArg Prod.snd (perform_follows o.context call o rfl)

/-- A call adds its events behind those that were there. -/
theorem events_after (o : OpenContext) (call : Context.Call) :
    (o.after call).events =
      o.events ++ (o.context.perform call).notes.map (Note.eventFor o.context.target) := by
  rw [after_eq, tell]

/-- A new context has the notes that are recorded while it is made. -/
theorem create_eq (target : String) (overrides metadata : Value) :
    create target overrides metadata =
      (Context.create target overrides metadata).result.map fun context =>
        tell { context } (Context.create target overrides metadata).notes := by
  -- What can fail while a context is made fails before anything is noted, but for the digest of the
  -- configuration.
  cases hload : Config.load none overrides with
  | error e =>
    rw [create, Context.create, hload]
    rfl
  | ok config =>
    cases hmetadata : metadata.mappingOrEmpty with
    | error e =>
      rw [create, Context.create, hload, hmetadata]
      rfl
    | ok entries =>
      have hcreate : create target overrides metadata = (do
          let hash ← configHash config
          let opened : OpenContext := { context := { target, config, metadata := entries } }
          pure (opened.logged "" "INFO" "compilation started" [("config_hash", .str hash)])) := by
        rw [create, hload, hmetadata]
        rfl
      have hrecorded : Context.create target overrides metadata = (do
          let hash ← configHash config
          Recorded.log "" "INFO" "compilation started" [("config_hash", .str hash)]
          pure { target, config, metadata := entries }) := by
        rw [Context.create, hload, hmetadata]
        rfl
      rw [hcreate, hrecorded]
      cases configHash config <;> rfl

/-- A new context can be opened. -/
theorem create_of_result {target : String} {overrides metadata : Value} {context : Context}
    (h : (Context.create target overrides metadata).result = .ok context) :
    create target overrides metadata =
      .ok (tell { context } (Context.create target overrides metadata).notes) := by
  rw [create_eq, h]
  rfl

/-- A context that is opened is new. -/
theorem create_eq_ok {target : String} {overrides metadata : Value} {start : OpenContext}
    (h : create target overrides metadata = .ok start) :
    (Context.create target overrides metadata).result = .ok start.context := by
  rw [create_eq] at h
  obtain ⟨context, hcontext, rfl⟩ := map_eq_ok.mp h
  exact hcontext

/-- A session with one more call. -/
theorem run_append (o : OpenContext) (before : List Context.Call) (call : Context.Call) :
    o.run (before ++ [call]) = (o.run before).after call := List.foldl_append

/-- Calls leave the target, the configuration and the metadata alone. -/
theorem run_context (o : OpenContext) (calls : List Context.Call) :
    (o.run calls).context = o.context := by
  induction calls generalizing o with
  | nil => rfl
  | cons call rest ih =>
    have hcall : (o.after call).context = o.context := by rw [after_eq, tell_context]
    exact (ih (o.after call)).trans hcall

end OpenContext

/-! ### What a call depends on -/

section SameSettings

variable {context other : Context}

/-- The settings are those of the target in the configuration. -/
theorem settings_congr (htarget : context.target = other.target)
    (hconfig : context.config = other.config) : context.settings = other.settings := by
  unfold Context.settings
  rw [htarget, hconfig]

/-- **What a call does depends on the target and the configuration alone.** -/
theorem perform_congr (htarget : context.target = other.target)
    (hconfig : context.config = other.config) (call : Context.Call) :
    context.perform call = other.perform call := by
  have hsettings := settings_congr htarget hconfig
  cases call with
  | log | warn | argument => rfl
  | argo component arguments =>
    simp only [Context.perform, Argo.compile, hsettings]
  | vertex component arguments outputDirectory contextName =>
    simp only [Context.perform, Vertex.compile, hsettings]

end SameSettings

/-! ### Warnings -/

/-- A note leaves the warnings of a task as they are, or adds one behind them. -/
theorem find?_addTo (kept : Keyed (List String)) (note : Note) {task : String}
    {texts : List String} (h : Keyed.find? kept task = some texts) :
    ∃ more, Keyed.find? (note.addTo kept) task = some (texts ++ more) := by
  cases note with
  | event => exact ⟨[], by rw [List.append_nil]; exact h⟩
  | warning noted message =>
    -- The note is for the task itself, and is put behind its texts, or for another one.
    by_cases hsame : task = taskKey noted
    · subst hsame
      refine ⟨[message], ?_⟩
      rw [Note.addTo, Keyed.find?_put_self, h]
      rfl
    · refine ⟨[], ?_⟩
      rw [Note.addTo, Keyed.find?_put_of_ne _ _ hsame, List.append_nil]
      exact h

/-- **Later notes only add to the warnings of a task.** -/
theorem find?_notes (kept : Keyed (List String)) (later : List Note) {task : String}
    {texts : List String} (h : Keyed.find? kept task = some texts) :
    ∃ more, Keyed.find? (later.foldl Note.addTo kept) task = some (texts ++ more) := by
  induction later generalizing kept texts with
  | nil => exact ⟨[], by rw [List.append_nil]; exact h⟩
  | cons note rest ih =>
    obtain ⟨first, hfirst⟩ := find?_addTo kept note h
    obtain ⟨more, hmore⟩ := ih (note.addTo kept) hfirst
    exact ⟨first ++ more, by rw [← List.append_assoc]; exact hmore⟩

/-! ### Sessions -/

namespace OpenContext

/-- What a call does to a context `start` that has served the calls `before`. -/
structure Isolates (start : OpenContext) (before : List Context.Call) (call : Context.Call) :
    Prop where
  /-- The answer, or the failure, and the events that are added are those in a new context with the
      same target and configuration. -/
  answers : ∀ overrides metadata fresh,
    create start.context.target overrides metadata = .ok fresh →
      fresh.context.config = start.context.config →
        (start.run before).answer call = fresh.answer call ∧
        ∃ added, (start.run (before ++ [call])).events = (start.run before).events ++ added ∧
          (fresh.after call).events = fresh.events ++ added
  target : (start.run (before ++ [call])).context.target = start.context.target
  config : (start.run (before ++ [call])).context.config = start.context.config
  hash : (start.run (before ++ [call])).context.hash = start.context.hash
  metadata : (start.run (before ++ [call])).context.metadata = start.context.metadata
  /-- Earlier events stay, in their order, before the later ones. -/
  events : (start.run before).events <+: (start.run (before ++ [call])).events
  /-- So do the earlier warnings of a task. -/
  warnings : ∀ task texts, Keyed.find? (start.run before).warnings task = some texts →
    ∃ later, Keyed.find? (start.run (before ++ [call])).warnings task = some later ∧
      texts <+: later

/-- **A context isolates its calls**, at every point of every session: a call can tell nothing of
    what was done before it, and takes nothing of it back. -/
theorem isolates {target : String} {overrides metadata : Value} {start : OpenContext}
    (h : create target overrides metadata = .ok start) (before : List Context.Call)
    (call : Context.Call) : start.context.target = target ∧ start.Isolates before call := by
  refine ⟨(PipelineCompiler.create_eq_ok (create_eq_ok h)).1, ?_⟩
  -- A run changes what was told and noted, never the context; the rest follows from this.
  have hbefore : (start.run before).context = start.context := run_context start before
  have hafter : (start.run (before ++ [call])).context = start.context := run_context start _
  constructor
  case answers =>
    intro overrides metadata fresh hfresh hconfig
    have htarget : fresh.context.target = start.context.target :=
      (PipelineCompiler.create_eq_ok (create_eq_ok hfresh)).1
    -- Another context with the same target and configuration performs the call in the same way.
    have hperform : (start.run before).context.perform call = fresh.context.perform call := by
      rw [hbefore]
      exact perform_congr htarget.symm hconfig.symm call
    refine ⟨?_, (fresh.context.perform call).notes.map (Note.eventFor fresh.context.target), ?_,
      events_after fresh call⟩
    · rw [answer_eq, answer_eq, hperform]
    · rw [run_append, events_after, hperform, hbefore, htarget]
  case target => rw [hafter]
  case config => rw [hafter]
  case hash => rw [hafter]
  case metadata => rw [hafter]
  case events =>
    rw [run_append, events_after]
    exact List.prefix_append _ _
  case warnings =>
    intro task texts htexts
    rw [run_append, after_eq, tell]
    obtain ⟨more, hmore⟩ := find?_notes _ ((start.run before).context.perform call).notes htexts
    exact ⟨texts ++ more, hmore, List.prefix_append _ _⟩

/-- The answer to a request for a workflow. -/
theorem answer_argo (o : OpenContext) (c : Component) (arguments : Keyed Value) :
    o.answer (.argo c arguments) =
      (Argo.compile o.context c arguments).result.map fun workflow =>
        .document workflow.toValue := by
  rw [answer_eq]
  exact Recorded.result_bind _ _

/-- A session in which a warning is taken and a compilation fails before another one has a
    document. -/
theorem sampleSession_isolates : ∃ start, create "argo" .null .null = .ok start ∧
    (∃ e, (start.run [.warn "t" "careful"]).answer (.argo halvedPipeline []) = .error e) ∧
    start.context.target = "argo" ∧
    start.Isolates [.warn "t" "careful",
      .argo halvedPipeline []] (.argo Argo.samplePipeline []) := by
  have hopened := create_of_result (create_default "argo")
  refine ⟨_, hopened, ?_, isolates hopened _ _⟩
  have hruns := halvedPipeline_runs.1
  rw [Argo.workflowOf, Recorded.result_bind_of_ok (create_default "argo")] at hruns
  rw [answer_argo, run_context, tell_context, hruns]
  exact ⟨_, rfl⟩

end OpenContext
end PipelineCompiler
