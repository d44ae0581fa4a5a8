import PipelineCompiler.Proofs.Argo.Verdict
import PipelineCompiler.Proofs.Context
import PipelineCompiler.Proofs.Vertex.Closure
import PipelineCompiler.Proofs.Vertex.Verdict

namespace PipelineCompiler

/-!
# Targets agree on flat pipelines

In the default configuration one check decides for both targets whether there is a document of a
flat pipeline.  Only one of the targets refuses constants that are passed as files.

* `Argo.workflowOf`, `Vertex.jobOf` — documents in the default configuration;
* `StopsAtConstant`, `BothSucceed`, `FailAlike` — the three ways in which two runs can end;
* `exactlyOne_of_agree`, `exactlyOne_of_failsBehind` — two runs against one check end in one of
  them;
* `targets_agree` — runs of both targets for a flat pipeline end in exactly one of them, if the
  texts of the pipeline are whole; where an argument has no plain form, both fail for it instead of
  having documents;
* `halvedPipeline_disagrees` — they do not if there is half of a character in an argument.
-/

open Text

/-! ### The default configuration -/

/-- The configuration without overrides. -/
theorem load_defaults : Config.load none .null = .ok Config.defaults := by
  rfl

/-- A context has the configuration that is loaded, if that has a digest. -/
theorem create_result {overrides metadata config : Value} {entries : Value.Entries}
    (hload : Config.load none overrides = .ok config)
    (hmetadata : metadata.mappingOrEmpty = .ok entries) (target : String) :
    (Context.create target overrides metadata).result =
      (configHash config).map fun _ => { target, config, metadata := entries } := by
  unfold Context.create
  rw [Recorded.result_bind_of_ok (a := config) hload,
    Recorded.result_bind_of_ok (a := entries) hmetadata, Recorded.result_bind]
  have hlift : (liftM (configHash config) : Recorded String).result = configHash config := rfl
  rw [hlift]
  cases configHash config with
  | ok hash => rfl
  | error e => rfl

/-- There is a context without overrides. -/
theorem create_default (target : String) : (Context.create target .null .null).result
    = .ok { target, config := Config.defaults } := by
  have hdefined : (configHash Config.defaults).toOption.isSome = true := by
    decide +kernel
  obtain ⟨hash, hhash⟩ := Option.isSome_iff_exists.mp hdefined
  rw [create_result load_defaults rfl, toOption_eq_some.mp hhash]
  rfl

/-- The workflow of a pipeline in the default configuration. -/
def Argo.workflowOf (c : Component) (arguments : Keyed Value) : Except Failure Workflow :=
  (do
    let context ← Context.create "argo" .null .null
    compile context c arguments : Recorded Workflow).result

/-- The job of a pipeline in the default configuration. -/
def Vertex.jobOf (c : Component) (arguments : Keyed Value)
    (outputDirectory contextName : String) : Except Failure Job :=
  (do
    let context ← Context.create "vertex" .null .null
    compile context c arguments outputDirectory contextName : Recorded Job).result

/-- **The workflow of a flat pipeline, against the check of the pipeline.** -/
theorem Argo.workflowOf_agrees {c : Component} {g : Graph} (hflat : c.IsFlat g)
    (hwhole : g.IsWhole) {arguments : Keyed Value}
    (hshown : (arguments.all fun entry => entry.2.isShown) = true) :
    Agree (.verdict True) (fun _ _ => True) (workflowOf c arguments) (c.check g arguments) := by
  obtain ⟨s, hsettings, hs⟩ := Argo.exists_complete (create_default "argo")
  rw [workflowOf, Recorded.result_bind_of_ok (create_default "argo")]
  exact compile_verdict hsettings hs hflat hwhole hshown

/-- **The job of a flat pipeline, against the check of the pipeline.** -/
theorem Vertex.jobOf_agrees {c : Component} {g : Graph} (hflat : c.IsFlat g) (hwhole : g.IsWhole)
    (hinputs : ∀ name ∈ c.inputNames, Whole name) {arguments : Keyed Value}
    (hshown : (arguments.all fun entry => entry.2.isShown) = true)
    (outputDirectory contextName : String) :
    Agree (.verdict False) (fun _ _ => True) (jobOf c arguments outputDirectory contextName)
      (c.check g arguments) := by
  obtain ⟨s, hsettings, hs⟩ := Vertex.exists_complete (create_default "vertex")
  rw [jobOf, Recorded.result_bind_of_ok (create_default "vertex")]
  exact compile_verdict hsettings hs hflat hwhole hinputs hshown outputDirectory contextName

/-- A workflow for an argument without a plain form fails for it behind the check of the graph. -/
theorem Argo.workflowOf_unshown {c : Component} {g : Graph} (hflat : c.IsFlat g)
    (hwhole : g.IsWhole) {arguments : Keyed Value}
    (hunshown : (arguments.all fun entry => entry.2.isShown) = false) :
    FailsBehind (.verdict True) .invalidValue (workflowOf c arguments)
      (g.check GraphTask.check c.inputNames) := by
  obtain ⟨s, hsettings, hs⟩ := Argo.exists_complete (create_default "argo")
  rw [workflowOf, Recorded.result_bind_of_ok (create_default "argo"), ← needs_of_isFlat hflat]
  exact compile_unshown hsettings hs (plainThroughout_of_isClean (hflat.isClean hwhole)) hunshown

/-- So does a job. -/
theorem Vertex.jobOf_unshown {c : Component} {g : Graph} (hflat : c.IsFlat g) (hwhole : g.IsWhole)
    (hinputs : ∀ name ∈ c.inputNames, Whole name) {arguments : Keyed Value}
    (hunshown : (arguments.all fun entry => entry.2.isShown) = false)
    (outputDirectory contextName : String) :
    FailsBehind (.verdict False) .invalidValue
      (jobOf c arguments outputDirectory contextName) (g.check GraphTask.check c.inputNames) := by
  obtain ⟨s, hsettings, hs⟩ := Vertex.exists_complete (create_default "vertex")
  rw [jobOf, Recorded.result_bind_of_ok (create_default "vertex")]
  exact compile_unshown hsettings hs (by rw [asGraph, hflat.graph])
    (fun entry hentry component hspec => (hflat.tasks entry hentry component hspec).1) hwhole
    hinputs hunshown outputDirectory contextName

/-! ### How two runs end -/

/-- A run refuses a constant that is passed as a file. -/
def StopsAtConstant {α : Type} (x : Except Failure α) : Prop :=
  ∃ e path, x = .error e ∧ e.verdict? = some (.constantArtifact, path)

/-- Two runs have results. -/
def BothSucceed {α β : Type} (x : Except Failure α) (y : Except Failure β) : Prop :=
  (∃ a, x = .ok a) ∧ ∃ b, y = .ok b

/-- Two runs fail with compilation errors of one kind, which belong to one task. -/
def FailAlike {α β : Type} (x : Except Failure α) (y : Except Failure β) : Prop :=
  ∃ e e' kind path, x = .error e ∧ y = .error e' ∧ e.verdict? = some (kind, path) ∧
    e'.verdict? = some (kind, path)

/-- Two runs fail in one given way. -/
def BothFailAs {α β : Type} (e : Failure) (x : Except Failure α) (y : Except Failure β) :
    Prop := x = .error e ∧ y = .error e

/-- Exactly one of three statements holds. -/
def ExactlyOne (p q r : Prop) : Prop :=
  (p ∧ ¬q ∧ ¬r) ∨ (¬p ∧ q ∧ ¬r) ∨ (¬p ∧ ¬q ∧ r)

/-- A failure of another kind is no such refusal. -/
theorem not_stopsAtConstant {α : Type} {e : Failure}
    (h : ∀ path, e.verdict? ≠ some (.constantArtifact, path)) :
    ¬ StopsAtConstant (.error e : Except Failure α) := by
  rintro ⟨_, path, heq, hstop⟩
  obtain rfl := Except.error.inj heq
  exact h path hstop

section Ends

variable {α β γ : Type} {x : Except Failure α} {y : Except Failure β} {z : Except Failure γ}
  {mayStop mayStop' : Prop}

/-- What goes with a failure of a check is of another kind. -/
theorem ne_constant_of_alike {e e' : Failure} (h : (Tolerance.verdict mayStop).alike e e')
    (path : List String) : e.verdict? ≠ some (.constantArtifact, path) := by
  obtain ⟨kind, _, hkind, he, -⟩ := h
  intro hstop
  exact hkind (Prod.mk.inj (Option.some.inj (he.symm.trans hstop))).1

/-- Two failures that go with one failure of a check. -/
theorem failAlike_of_alike {e e' e'' : Failure} (h : (Tolerance.verdict mayStop).alike e e'')
    (h' : (Tolerance.verdict mayStop').alike e' e'') :
    FailAlike (.error e : Except Failure α) (.error e' : Except Failure β) := by
  obtain ⟨kind, path, -, he, hcheck⟩ := h
  obtain ⟨_, _, -, he', hcheck'⟩ := h'
  obtain ⟨rfl, rfl⟩ := Prod.mk.inj (Option.some.inj (hcheck.symm.trans hcheck'))
  exact ⟨e, e', kind, path, rfl, rfl, he, he'⟩

/-- Of two runs, the second of which never refuses constants that are passed as files, either the
    first one does, or both end well in some other way, or both fail alike. -/
theorem exactlyOne_of_ends {good : Prop} (hnever : ¬ StopsAtConstant y)
    (hgood : good → ¬ StopsAtConstant x ∧ ¬ FailAlike x y)
    (hends : StopsAtConstant x ∨ good ∨ FailAlike x y) :
    ExactlyOne (StopsAtConstant x) good (FailAlike x y) := by
  -- A failure of the second run that goes with the refusal would be a refusal as well.
  have halike : FailAlike x y → ¬ StopsAtConstant x := by
    rintro ⟨e, e', kind, path, rfl, rfl, he, he'⟩ ⟨_, _, heq, hstop⟩
    obtain rfl := Except.error.inj heq
    obtain ⟨rfl, rfl⟩ := Prod.mk.inj (Option.some.inj (hstop.symm.trans he))
    exact hnever ⟨e', _, rfl, he'⟩
  rcases hends with hstops | hends | hends
  · exact .inl ⟨hstops, fun h => (hgood h).1 hstops, fun h => halike h hstops⟩
  · exact .inr (.inl ⟨(hgood hends).1, hends, (hgood hends).2⟩)
  · exact .inr (.inr ⟨halike hends, fun h => (hgood h).2 hends, hends⟩)

/-- **Two runs that agree with one check** end in exactly one of the three ways, if only the first
    one may stop. -/
theorem exactlyOne_of_agree (h : Agree (.verdict True) (fun _ _ => True) x z)
    (h' : Agree (.verdict False) (fun _ _ => True) y z) :
    ExactlyOne (StopsAtConstant x) (BothSucceed x y) (FailAlike x y) := by
  refine exactlyOne_of_ends ?never ?good ?ends
  case never =>
    cases h' with
    | both =>
      rintro ⟨_, _, he, -⟩
      cases he
    | neither alike => exact not_stopsAtConstant (ne_constant_of_alike alike)
    | stopped stops => exact stops.1.elim
  case good =>
    rintro ⟨⟨a, rfl⟩, -⟩
    constructor
    · rintro ⟨_, _, he, -⟩
      cases he
    · rintro ⟨_, _, _, _, he, -⟩
      cases he
  case ends =>
    cases h with
    | both =>
      cases h' with
      | both => exact .inr (.inl ⟨⟨_, rfl⟩, _, rfl⟩)
      | stopped stops => exact stops.1.elim
    | neither alike =>
      cases h' with
      | neither alike' => exact .inr (.inr (failAlike_of_alike alike alike'))
      | stopped stops => exact stops.1.elim
    | stopped stops =>
      obtain ⟨-, path, hstop⟩ := stops
      exact .inl ⟨_, path, rfl, hstop⟩

/-- **Two runs that fail behind one check** do so, or end as the check does, if the failure is no
    compilation error. -/
theorem exactlyOne_of_failsBehind {fault : Failure} (hfault : fault.verdict? = none)
    (h : FailsBehind (.verdict True) fault x z) (h' : FailsBehind (.verdict False) fault y z) :
    ExactlyOne (StopsAtConstant x) (BothFailAs fault x y) (FailAlike x y) := by
  have hother : ∀ path, fault.verdict? ≠ some (.constantArtifact, path) := fun path hstop => by
    rw [hfault] at hstop
    cases hstop
  refine exactlyOne_of_ends ?never ?good ?ends
  case never =>
    cases h' with
    | behind => exact not_stopsAtConstant hother
    | neither alike => exact not_stopsAtConstant (ne_constant_of_alike alike)
    | stopped stops => exact stops.1.elim
  case good =>
    rintro ⟨rfl, -⟩
    refine ⟨not_stopsAtConstant hother, ?_⟩
    rintro ⟨_, _, _, _, heq, -, he, -⟩
    obtain rfl := Except.error.inj heq
    rw [hfault] at he
    cases he
  case ends =>
    cases h with
    | behind =>
      cases h' with
      | behind => exact .inr (.inl ⟨rfl, rfl⟩)
      | stopped stops => exact stops.1.elim
    | neither alike =>
      cases h' with
      | neither alike' => exact .inr (.inr (failAlike_of_alike alike alike'))
      | stopped stops => exact stops.1.elim
    | stopped stops =>
      obtain ⟨-, path, hstop⟩ := stops
      exact .inl ⟨_, path, rfl, hstop⟩

end Ends

/-! ### Flat pipelines -/

/-- **Both targets agree on which flat pipelines are valid.**  If the texts of a flat pipeline are
    whole, then in the default configuration and whatever the arguments are, either a constant is
    passed as a file and there is no workflow for that reason, or there are a workflow and a job, or
    there is neither, for reasons of one kind in one task.  If an argument has no plain form, both
    runs fail for it where there would be documents. -/
theorem targets_agree {c : Component} {g : Graph} (hflat : c.IsFlat g) (hwhole : g.IsWhole)
    (hinputs : ∀ name ∈ c.inputNames, Whole name) (arguments : Keyed Value)
    (outputDirectory contextName : String) :
    ((∀ entry ∈ arguments, entry.2.isShown = true) →
      ExactlyOne (StopsAtConstant (Argo.workflowOf c arguments))
        (BothSucceed (Argo.workflowOf c arguments)
          (Vertex.jobOf c arguments outputDirectory contextName))
        (FailAlike (Argo.workflowOf c arguments)
          (Vertex.jobOf c arguments outputDirectory contextName))) ∧
    ((∃ entry ∈ arguments, entry.2.isShown = false) →
      ExactlyOne (StopsAtConstant (Argo.workflowOf c arguments))
        (BothFailAs .invalidValue (Argo.workflowOf c arguments)
          (Vertex.jobOf c arguments outputDirectory contextName))
        (FailAlike (Argo.workflowOf c arguments)
          (Vertex.jobOf c arguments outputDirectory contextName))) := by
  constructor
  · intro hshown
    have hshown := List.all_eq_true.mpr hshown
    exact exactlyOne_of_agree (Argo.workflowOf_agrees hflat hwhole hshown)
      (Vertex.jobOf_agrees hflat hwhole hinputs hshown outputDirectory contextName)
  · rintro ⟨entry, hentry, hnot⟩
    have hunshown : (arguments.all fun entry => entry.2.isShown) = false :=
      List.all_eq_false.mpr ⟨entry, hentry, Bool.eq_false_iff.mp hnot⟩
    exact exactlyOne_of_failsBehind rfl (Argo.workflowOf_unshown hflat hwhole hunshown)
      (Vertex.jobOf_unshown hflat hwhole hinputs hunshown outputDirectory contextName)

/-- The job of the example is that of a flat pipeline. -/
theorem Vertex.samplePipeline_flat : samplePipeline.IsFlat sampleGraph := by
  refine ⟨rfl, .inr ⟨"c", rfl⟩, fun entry hentry component hspec => ?_⟩
  simp only [sampleGraph, List.mem_cons, List.not_mem_nil, or_false] at hentry
  rcases hentry with rfl | rfl
  · obtain rfl := Option.some.inj hspec
    exact ⟨.inr ⟨"a", rfl⟩, rfl⟩
  · obtain rfl := Option.some.inj hspec
    exact ⟨.inr ⟨"a", rfl⟩, rfl⟩

/-- The runs for this pipeline with an argument that no input takes end in one way, and so do those
    with one that has too many digits. -/
theorem Vertex.samplePipeline_agrees :
    samplePipeline.IsFlat sampleGraph ∧ sampleGraph.IsWhole ∧
      (∀ name ∈ samplePipeline.inputNames, Whole name) ∧
      (∀ entry ∈ [("z", Value.int 1)], entry.2.isShown = true) ∧
      ExactlyOne (StopsAtConstant (Argo.workflowOf samplePipeline [("z", .int 1)]))
        (BothSucceed (Argo.workflowOf samplePipeline [("z", .int 1)])
          (jobOf samplePipeline [("z", .int 1)] "" "pipeline"))
        (FailAlike (Argo.workflowOf samplePipeline [("z", .int 1)])
          (jobOf samplePipeline [("z", .int 1)] "" "pipeline")) ∧
      (∃ entry ∈ [("z", Value.int (10 ^ 4300))], entry.2.isShown = false) ∧
      ExactlyOne (StopsAtConstant (Argo.workflowOf samplePipeline [("z", .int (10 ^ 4300))]))
        (BothFailAs .invalidValue (Argo.workflowOf samplePipeline [("z", .int (10 ^ 4300))])
          (jobOf samplePipeline [("z", .int (10 ^ 4300))] "" "pipeline"))
        (FailAlike (Argo.workflowOf samplePipeline [("z", .int (10 ^ 4300))])
          (jobOf samplePipeline [("z", .int (10 ^ 4300))] "" "pipeline")) := by
  have hwhole : sampleGraph.IsWhole := by
    decide +kernel
  have hinputs : ∀ name ∈ samplePipeline.inputNames, Whole name := by
    decide +kernel
  have hshown : ∀ entry ∈ [("z", Value.int 1)], entry.2.isShown = true := by
    decide +kernel
  have hunshown : ∃ entry ∈ [("z", Value.int (10 ^ 4300))], entry.2.isShown = false :=
    ⟨_, List.mem_singleton_self _, by decide +kernel⟩
  exact ⟨samplePipeline_flat, hwhole, hinputs, hshown,
    (targets_agree samplePipeline_flat hwhole hinputs _ "" "pipeline").1 hshown, hunshown,
    (targets_agree samplePipeline_flat hwhole hinputs _ "" "pipeline").2 hunshown⟩

/-! ### Halves of characters -/

/-- A graph with one task, whose argument is half of a character. -/
def halvedGraph : Graph :=
  { tasks := [("t", Argo.sampleTask Argo.sampleConsumer
      [("x", .literal (String.singleton (charOfCode 0xD800)))])]
    outputValues := [] }

/-- A pipeline with this graph. -/
def halvedPipeline : Component :=
  { implementation := .graph halvedGraph
    name := .str "c", description := .null, inputs := [], outputs := [], metadata := [] }

/-- There is a job of this pipeline but no workflow, because the template of its graph has no
    digest.  That is no compilation error. -/
theorem halvedPipeline_runs :
    Argo.workflowOf halvedPipeline [] = .error (.accident .invalidValue) ∧
      ∃ job, Vertex.jobOf halvedPipeline [] "" "pipeline" = .ok job := by
  have hworkflow : (failure? (Argo.workflowOf halvedPipeline [])).bind Failure.accident? =
      some .invalidValue := by
    decide +kernel
  have hjob : (Vertex.jobOf halvedPipeline [] "" "pipeline").toOption.isSome = true := by
    decide +kernel
  obtain ⟨job, hfound⟩ := Option.isSome_iff_exists.mp hjob
  obtain ⟨e, he, haccident⟩ := Option.bind_eq_some_iff.mp hworkflow
  obtain rfl := accident?_eq_some.mp haccident
  exact ⟨failure?_eq_some.mp he, job, toOption_eq_some.mp hfound⟩

/-- **Halves of characters matter for one target only**, so that the runs for this pipeline end in
    none of the three ways. -/
theorem halvedPipeline_disagrees : halvedPipeline.IsFlat halvedGraph ∧
    ¬ ExactlyOne (StopsAtConstant (Argo.workflowOf halvedPipeline []))
      (BothSucceed (Argo.workflowOf halvedPipeline [])
        (Vertex.jobOf halvedPipeline [] "" "pipeline"))
      (FailAlike (Argo.workflowOf halvedPipeline [])
        (Vertex.jobOf halvedPipeline [] "" "pipeline")) := by
  obtain ⟨hworkflow, job, hjob⟩ := halvedPipeline_runs
  refine ⟨⟨rfl, .inr ⟨"c", rfl⟩, fun entry hentry component hspec => ?_⟩, ?_⟩
  · obtain rfl := List.mem_singleton.mp hentry
    obtain rfl := Option.some.inj hspec
    exact ⟨.inr ⟨"a", rfl⟩, rfl⟩
  -- The workflow crashed and the job is there, which is none of the three.
  · rw [hworkflow, hjob]
    rintro (⟨⟨e, path, he, hstop⟩, -⟩ | ⟨-, ⟨⟨_, he⟩, -⟩, -⟩ | ⟨-, -, _, _,
      _, _, -, he, -⟩)
    · obtain rfl := Except.error.inj he
      cases hstop
    · cases he
    · cases he

end PipelineCompiler
