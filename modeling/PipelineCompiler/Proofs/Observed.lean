import PipelineCompiler.Proofs.Argo.Closure
import PipelineCompiler.Proofs.Argo.Traces
import PipelineCompiler.Proofs.Vertex.Closure
import PipelineCompiler.Proofs.Vertex.Traces

namespace PipelineCompiler.OpenContext

/-!
# What observers see

* `OpenContext.Adds` — a call on a context gives a document and adds some events, which tell the
  warnings that it adds;
* `documents_observed` — whoever sees the events of a compilation knows the names in its document.
-/

/-- A call gives a document and adds some events, which tell the warnings that it adds. -/
structure Adds (o : OpenContext) (call : Context.Call) (document : Value)
    (added : List (Keyed Value)) : Prop where
  answer : o.answer call = .ok (.document document)
  events : (o.after call).events = o.events ++ added
  warnings : WarningsTold o.warnings (o.after call).warnings added

/-- What a compilation adds to the context of its call. -/
theorem adds_of_result (o : OpenContext) {call : Context.Call} {α : Type}
    {x : Recorded α} {a : α}
    {document : α → Value}
    (hcall : o.context.perform call = x >>= fun made => pure (.document (document made)))
    (h : x.result = .ok a) (hown : ∀ note ∈ x.notes, note.IsOwn) :
    o.Adds call (document a) (eventsOf o.context.target x.notes) := by
  -- The last step of the call notes nothing.
  have hnotes : (o.context.perform call).notes = x.notes := by
    rw [hcall, Recorded.bind_notes_of_ok h]
    exact List.append_nil _
  constructor
  case answer =>
    rw [answer_eq, hcall, Recorded.result_bind_of_ok h]
    rfl
  case events =>
    rw [events_after, hnotes]
    rfl
  case warnings =>
    rw [after_eq, hnotes, tell]
    exact warningsTold o.context.target o.warnings hown

/-- **Observers know the names in a document.**  The events that a compilation adds tell the
    templates of a workflow, or the components and tasks of a job, and they tell the warnings. -/
theorem documents_observed (o : OpenContext) :
    (∀ c arguments w, (Argo.compile o.context c arguments).result = .ok w →
      ∃ events, o.Adds (.argo c arguments) w.toValue events ∧ Argo.Traced w.toValue events) ∧
    ∀ c arguments outputDirectory contextName job,
      (Vertex.compile o.context c arguments outputDirectory contextName).result = .ok job →
        ∃ s g order events, o.context.settings = .ok s ∧ Vertex.asGraph c = .ok g ∧
          g.order c.inputNames = .ok order ∧
          o.Adds (.vertex c arguments outputDirectory contextName) job.toValue events ∧
          Vertex.Traced (emittedNames s order) job events := by
  constructor
  · intro c arguments w hw
    obtain ⟨hown, htraced⟩ := Argo.compile_traced (Recorded.yields_true hw) o.context.target
    exact ⟨_, o.adds_of_result rfl hw hown, htraced⟩
  · intro c arguments outputDirectory contextName job hjob
    obtain ⟨hown, s, g, order, hs, hg, horder, htraced⟩ :=
      Vertex.compile_traced (Recorded.yields_true hjob) o.context.target
    exact ⟨s, g, order, _, hs, hg, horder, o.adds_of_result rfl hjob hown, htraced⟩

/-- The pipelines of the examples, in contexts in which something was noted before. -/
theorem samplePipelines_observed :
    (∃ w events, (Argo.compile Argo.sampleContext Argo.samplePipeline []).result = .ok w ∧
      OpenContext.Adds (OpenContext.warned { context := Argo.sampleContext } "t" "careful")
        (.argo Argo.samplePipeline []) w.toValue events ∧ Argo.Traced w.toValue events) ∧
    ∃ job names events,
      (Vertex.compile Vertex.sampleContext Vertex.samplePipeline [] "" "pipeline").result =
        .ok job ∧
      OpenContext.Adds (OpenContext.warned { context := Vertex.sampleContext } "t" "careful")
        (.vertex Vertex.samplePipeline [] "" "pipeline") job.toValue events ∧
      Vertex.Traced names job events := by
  constructor
  · obtain ⟨w, hw⟩ := Argo.samplePipeline_result
    obtain ⟨events, hadds, htraced⟩ := (documents_observed
      (OpenContext.warned { context := Argo.sampleContext } "t" "careful")).1 _ _ w hw
    exact ⟨w, events, hw, hadds, htraced⟩
  · obtain ⟨job, hjob⟩ := Vertex.samplePipeline_result
    obtain ⟨s, g, order, events, -, -, -, hadds, htraced⟩ := (documents_observed
      (OpenContext.warned { context := Vertex.sampleContext } "t" "careful")).2 _ _ _ _ job hjob
    exact ⟨job, emittedNames s order, events, hjob, hadds, htraced⟩

end PipelineCompiler.OpenContext
