import PipelineCompiler.Proofs.Verdict

namespace PipelineCompiler

/-!
# Compilations end with a document or a refusal

Whatever the overrides, the arguments and the component are, a compilation has a document or fails
with a compilation error: everything that is looked up on the way is there.  The texts of the
component have to be whole, the configuration needs a digest and the arguments a plain form.

* `HasDocumentOrRefusal` — how a compilation may end;
* `EndsProperly`, `compile_documentOrRefusal` — how the compilations of both targets end, for all
  overrides that are accepted;
* `halvedPipeline_crashes` — a compilation need not end so if there is half of a character in an
  argument of a task.
-/

open Text

/-- There is a document, or a compilation error says why not. -/
def HasDocumentOrRefusal {α : Type} (x : Except Failure α) : Prop :=
  (∃ document, x = .ok document) ∨ ∃ e, x = .error (.compilation e)

/-- A failure with a verdict is a refusal. -/
theorem hasDocumentOrRefusal_of_verdict {α : Type} {e : Failure} {kind : ErrorKind}
    {path : List String} (h : e.verdict? = some (kind, path)) :
    HasDocumentOrRefusal (.error e : Except Failure α) := by
  obtain ⟨error, rfl, -⟩ := Failure.verdict?_eq_some.mp h
  exact .inr ⟨error, rfl⟩

/-- What agrees with a check ends with a document or a refusal. -/
theorem hasDocumentOrRefusal_of_agree {mayStop : Prop} {α β : Type} {R : α → β → Prop}
    {x : Except Failure α} {y : Except Failure β} (h : Agree (.verdict mayStop) R x y) :
    HasDocumentOrRefusal x := by
  cases h with
  | both => exact .inl ⟨_, rfl⟩
  | neither alike =>
    obtain ⟨_, _, -, he, -⟩ := alike
    exact hasDocumentOrRefusal_of_verdict he
  | stopped stops =>
    obtain ⟨-, _, he⟩ := stops
    exact hasDocumentOrRefusal_of_verdict he

/-- What fails behind a check ends with a refusal, or in its own way. -/
theorem refusal_of_failsBehind {mayStop : Prop} {fault : Failure} {α β : Type}
    {x : Except Failure α} {y : Except Failure β} (h : FailsBehind (.verdict mayStop) fault x y) :
    HasDocumentOrRefusal x ∨ x = .error fault := by
  cases h with
  | behind => exact .inr rfl
  | neither alike =>
    obtain ⟨_, _, -, he, -⟩ := alike
    exact .inl (hasDocumentOrRefusal_of_verdict he)
  | stopped stops =>
    obtain ⟨-, _, he⟩ := stops
    exact .inl (hasDocumentOrRefusal_of_verdict he)

/-! ### Graphs of jobs -/

/-- A clean component is a graph of clean tasks, or can be wrapped into one. -/
theorem Vertex.exists_asGraph {c : Component} (h : c.Throughout Component.IsClean) :
    ∃ g, asGraph c = .ok g ∧ HasStems g ∧ g.IsWhole := by
  obtain ⟨hname, hcontainer, hgraph⟩ := h.self
  unfold asGraph
  -- A graph is taken as it is; a container is wrapped into a graph with one task, whose component
  -- it is.
  cases himpl : c.implementation with
  | graph g =>
    cases h with
    | intro _ inner =>
      exact ⟨g, rfl, fun entry hentry component hspec =>
        (inner g himpl entry hentry component hspec).self.named, hgraph g himpl⟩
  | container container =>
    obtain ⟨id, hid⟩ := exists_nameOr hname "component"
    rw [hid]
    refine ⟨_, rfl, fun entry hentry component hspec => ?_, fun entry hentry => ⟨?_, ?_⟩⟩
    · obtain rfl := List.mem_singleton.mp hentry
      obtain rfl := Option.some.inj hspec
      exact hname
    · obtain rfl := List.mem_singleton.mp hentry
      intro argument hargument text htext
      obtain ⟨input, -, rfl⟩ := List.mem_map.mp hargument
      cases htext
    · obtain rfl := List.mem_singleton.mp hentry
      intro component hspec
      obtain rfl := Option.some.inj hspec
      exact hcontainer container himpl

/-! ### Both targets -/

/-- How a compilation with a configuration and some arguments ends: it fails like the digest of the
    configuration does, if that fails.  Otherwise there is a document or a compilation error, unless
    one of the arguments has no plain form. -/
structure EndsProperly {α : Type} (config : Value) (arguments : Keyed Value)
    (x : Except Failure α) : Prop where
  unhashed : ∀ e, configHash config = .error e → x = .error e
  hashed : ∀ hash, configHash config = .ok hash → HasDocumentOrRefusal x ∨
    x = .error .invalidValue ∧ ∃ entry ∈ arguments, entry.2.isShown = false

/-- A run ends properly if it does once there is a context. -/
theorem endsProperly_of_context {α : Type} {overrides metadata config : Value}
    {entries : Value.Entries} (hload : Config.load none overrides = .ok config)
    (hmetadata : metadata.mappingOrEmpty = .ok entries) {target : String}
    {run : Context → Recorded α} {arguments : Keyed Value}
    (h : ∀ context, (Context.create target overrides metadata).result = .ok context →
      HasDocumentOrRefusal (run context).result ∨
        (run context).result = .error .invalidValue ∧
          ∃ entry ∈ arguments, entry.2.isShown = false) :
    EndsProperly config arguments (Context.create target overrides metadata >>= run).result := by
  -- Either the configuration has no digest, and there is no context, or the run decides.
  have hcreate := create_result hload hmetadata target
  refine ⟨fun e he => ?_, fun hash hhash => ?_⟩
  · rw [Recorded.result_bind, hcreate, he]
    rfl
  · rw [hhash] at hcreate
    rw [Recorded.result_bind_of_ok hcreate]
    exact h _ hcreate

/-- A run ends in a document or a refusal, or fails for an argument, if it agrees with a check when
    all arguments have a plain form, and fails behind one when some have none. -/
theorem documentOrRefusal_or_unshown {α β γ : Type} {mayStop : Prop} {R : α → β → Prop}
    {arguments : Keyed Value} {x : Except Failure α} {y : Except Failure β}
    {z : Except Failure γ}
    (hshown : (arguments.all fun entry => entry.2.isShown) = true →
      Agree (.verdict mayStop) R x y)
    (hunshown : (arguments.all fun entry => entry.2.isShown) = false →
      FailsBehind (.verdict mayStop) .invalidValue x z) :
    HasDocumentOrRefusal x ∨
      x = .error .invalidValue ∧ ∃ entry ∈ arguments, entry.2.isShown = false := by
  cases hall : arguments.all fun entry => entry.2.isShown with
  | true => exact .inl (hasDocumentOrRefusal_of_agree (hshown hall))
  | false =>
    obtain ⟨entry, hentry, hnot⟩ := List.all_eq_false.mp hall
    exact (refusal_of_failsBehind (hunshown hall)).imp id
      fun hfails => ⟨hfails, entry, hentry, Bool.eq_false_iff.mpr hnot⟩

/-- **Compilations end with a document or a refusal.**  For every component whose names are texts or
    absent and whose texts are whole, at every depth, whatever the arguments are and whatever
    overrides are accepted: the compilation for each target, in a context with these overrides, has
    a document or fails with a compilation error.  There are two exceptions.  A configuration
    without a digest has no context, and an argument without a plain form fails for it. -/
theorem compile_documentOrRefusal {c : Component} (hclean : c.Throughout Component.IsClean)
    (hinputs : ∀ name ∈ c.inputNames, Whole name) {overrides metadata config : Value}
    {entries : Value.Entries} (hload : Config.load none overrides = .ok config)
    (hmetadata : metadata.mappingOrEmpty = .ok entries) (arguments : Keyed Value)
    (outputDirectory contextName : String) :
    EndsProperly config arguments (Context.create "argo" overrides metadata >>= fun context =>
      Argo.compile context c arguments).result ∧
    EndsProperly config arguments (Context.create "vertex" overrides metadata >>= fun context =>
      Vertex.compile context c arguments outputDirectory contextName).result := by
  constructor
  -- For each target, the settings are complete in every context, and the builder agrees with the
  -- check, or an argument has no plain form.
  · refine endsProperly_of_context hload hmetadata fun context hcontext => ?_
    obtain ⟨s, hsettings, hs⟩ := Argo.exists_complete hcontext
    have hplain := Argo.plainThroughout_of_isClean hclean
    exact documentOrRefusal_or_unshown (Argo.compile_checked hsettings hs hplain)
      (Argo.compile_unshown hsettings hs hplain)
  · refine endsProperly_of_context hload hmetadata fun context hcontext => ?_
    obtain ⟨s, hsettings, hs⟩ := Vertex.exists_complete hcontext
    obtain ⟨g, hgraph, hstems, hwhole⟩ := Vertex.exists_asGraph hclean
    exact documentOrRefusal_or_unshown
      (fun hshown => Vertex.compile_checked hsettings hs hgraph hstems hwhole hinputs hshown
        outputDirectory contextName)
      (fun hunshown => Vertex.compile_unshown hsettings hs hgraph hstems hwhole hinputs hunshown
        outputDirectory contextName)

/-- The nested example is clean. -/
theorem Argo.samplePipeline_isClean : samplePipeline.Throughout Component.IsClean := by
  -- The pipeline is taken apart once: its containers are clean when their texts are, its graphs
  -- when their components are.
  have hcontainer : ∀ {c : Component}, c.isContainer = true → IsStem c.name → c.IsWhole →
      c.Throughout Component.IsClean := by
    intro c hc hname hwhole
    obtain ⟨container, himpl⟩ := exists_container hc
    have hnone : ∀ {g}, c.implementation ≠ .graph g := fun himpl' => by
      rw [himpl] at himpl'
      cases himpl'
    exact .intro ⟨hname, fun _ _ => hwhole, fun _ himpl => absurd himpl hnone⟩
      fun _ himpl => absurd himpl hnone
  have hgraph : ∀ {c : Component} {g : Graph}, c.implementation = .graph g → IsStem c.name →
      g.IsWhole →
        (∀ entry ∈ g.tasks, ∀ component, entry.2.reference.spec = some component →
        component.Throughout Component.IsClean) → c.Throughout Component.IsClean := by
    intro c g himpl hname hwhole hinner
    refine .intro ⟨hname, fun container himpl' => ?_, fun g' himpl' => ?_⟩ fun g' himpl' => ?_
    · rw [himpl] at himpl'
      cases himpl'
    · rwa [← Implementation.graph.inj (himpl.symm.trans himpl')]
    · rwa [← Implementation.graph.inj (himpl.symm.trans himpl')]
  have hconsumer := hcontainer (c := sampleConsumer) rfl (.inr ⟨"a", rfl⟩) (by decide)
  have hproducer := hcontainer (c := sampleProducer) rfl (.inr ⟨"a", rfl⟩) (by decide)
  have hinner : sampleGraph.Throughout Component.IsClean := by
    refine hgraph rfl (.inr ⟨"b", rfl⟩) (by decide) fun entry hentry component hspec => ?_
    obtain rfl := List.mem_singleton.mp hentry
    obtain rfl := Option.some.inj hspec
    exact hconsumer
  refine hgraph rfl (.inr ⟨"c", rfl⟩) (by decide) fun entry hentry component hspec => ?_
  simp only [List.mem_cons, List.not_mem_nil, or_false] at hentry
  rcases hentry with rfl | rfl
  · obtain rfl := Option.some.inj hspec
    exact hproducer
  · obtain rfl := Option.some.inj hspec
    exact hinner

/-- Overrides for both targets, after which names have one character. -/
def narrowOverrides : Value :=
  .ofFields [("argo", .ofFields [("max_name_length", .int 1)]),
    ("vertex", .ofFields [("max_name_length", .int 1)])]

/-- With these overrides both compilations of this pipeline end so, although there is a graph in
    it, and the configuration has a digest. -/
theorem Argo.samplePipeline_documentOrRefusal :
    samplePipeline.Throughout Component.IsClean ∧
      (∀ name ∈ samplePipeline.inputNames, Whole name) ∧
      (∃ config, Config.load none narrowOverrides = .ok config ∧
        (∃ hash, configHash config = .ok hash) ∧
        EndsProperly config [] (Context.create "argo" narrowOverrides .null >>= fun context =>
          compile context samplePipeline []).result ∧
        EndsProperly config [] (Context.create "vertex" narrowOverrides .null >>= fun context =>
          Vertex.compile context samplePipeline [] "" "pipeline").result) := by
  have hinputs : ∀ name ∈ samplePipeline.inputNames, Whole name := fun _ hname => nomatch hname
  have hdefined : ((Config.load none narrowOverrides).bind configHash).toOption.isSome = true := by
    decide +kernel
  obtain ⟨hash, hfound⟩ := Option.isSome_iff_exists.mp hdefined
  obtain ⟨config, hload, hhash⟩ := bind_eq_ok.mp (toOption_eq_some.mp hfound)
  exact ⟨samplePipeline_isClean, hinputs, config, hload, ⟨hash, hhash⟩,
    compile_documentOrRefusal samplePipeline_isClean hinputs hload
      (show Value.null.mappingOrEmpty = .ok [] from rfl) [] "" "pipeline"⟩

/-! ### Halves of characters -/

/-- **Half of a character makes a compilation fail in another way**, although all names are
    texts. -/
theorem halvedPipeline_crashes :
    halvedPipeline.Throughout (fun c => IsStem c.name) ∧
      ∃ context, (Context.create "argo" .null .null).result = .ok context ∧
        ¬ HasDocumentOrRefusal (Argo.compile context halvedPipeline []).result := by
  refine ⟨.intro (.inr ⟨"c", rfl⟩) fun g himpl entry hentry component hspec => ?_, _,
    create_default "argo", ?_⟩
  · obtain rfl := Implementation.graph.inj himpl
    obtain rfl := List.mem_singleton.mp hentry
    obtain rfl := Option.some.inj hspec
    exact .intro (.inr ⟨"a", rfl⟩) fun g himpl => nomatch himpl
  · have hruns := halvedPipeline_runs.1
    rw [Argo.workflowOf, Recorded.result_bind_of_ok (create_default "argo")] at hruns
    rw [hruns]
    rintro (⟨_, he⟩ | ⟨_, he⟩)
    · cases he
    · cases he

end PipelineCompiler
