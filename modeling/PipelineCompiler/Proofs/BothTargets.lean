import PipelineCompiler.Proofs.Argo.Closure
import PipelineCompiler.Proofs.Argo.Conversions
import PipelineCompiler.Proofs.Argo.Declared
import PipelineCompiler.Proofs.Argo.Rearranged
import PipelineCompiler.Proofs.Argo.Shared
import PipelineCompiler.Proofs.Vertex.Closure
import PipelineCompiler.Proofs.Vertex.Conversions
import PipelineCompiler.Proofs.Vertex.Rearranged
import PipelineCompiler.Proofs.Vertex.Shared

namespace PipelineCompiler

/-!
# The documents of both targets

* `compile_rearranged` — pipelines that differ in nothing but the order of tasks and arguments
  have the same workflow and the same job, or none;
* `sharing_exact` — what was asked for is what a task has, and nothing is there twice;
* `conversions_exact` — besides the tasks of the pipeline, there are the conversions that are
  needed, and no others;
* `containers_declare_uses` — the inputs that are declared are those that the command line
  reaches, the outputs that it reaches are declared, and what is declared occurs in the strings of
  the container.

The pipelines of the examples are those whose documents are closed.  With their tasks, and the
arguments of these, in another order, they are also examples for the first statement.
-/

/-! ### The order of mappings -/

/-- **The order in which tasks and arguments are written does not matter**, at no depth.  With the
    same arguments and in the same context both targets either fail for both pipelines, or make the
    same document for both. -/
theorem compile_rearranged {c c' : Component} (h : c.Rearranged c') (context : Context)
    (arguments : Keyed Value) :
    (∀ w, (Argo.compile context c arguments).result = .ok w ↔
      (Argo.compile context c' arguments).result = .ok w) ∧
    ∀ outputDirectory contextName job,
      (Vertex.compile context c arguments outputDirectory contextName).result = .ok job ↔
        (Vertex.compile context c' arguments outputDirectory contextName).result = .ok job :=
  ⟨fun w => (Argo.compile_agrees h arguments).ok_iff w,
    fun outputDirectory contextName job =>
      (Vertex.compile_agrees h arguments outputDirectory contextName).ok_iff job⟩

/-- The nested pipeline, with its tasks in another order. -/
def Argo.swappedPipeline : Component :=
  { implementation := .graph
      { tasks := [
          ("q", sampleTask sampleGraph
            [("y", .taskOutput { task := "p", output := "o" })]),
          ("p", sampleTask sampleProducer [])]
        outputValues := [] }
    name := .str "c", description := .null, inputs := [], outputs := [], metadata := [] }

/-- The nested pipeline differs in an order. -/
theorem Argo.samplePipeline_swapped : samplePipeline.Rearranged swappedPipeline := by
  have hinner : sampleGraph.Rearranged sampleGraph :=
    .graph (by decide) (.cons (.resolved .container (by decide) (.refl _)) .nil) (.refl _)
  exact .graph (by decide) (.cons (.resolved .container (by decide) (.refl _))
    (.cons (.resolved hinner (by decide) (.refl _)) .nil)) (.swap _ _ _)

/-- The flat pipeline, with its tasks and arguments in another order. -/
def Vertex.swappedPipeline : Component :=
  { implementation := .graph
      { tasks := [
          ("q", sampleTask sampleConsumer
            [ ("f", .graphInput "y" .null), ("x", .taskOutput { task := "p", output := "o" }),
              ("n", .literal "z") ]),
          ("p", sampleTask sampleProducer [])]
        outputValues := [("r", { task := "p", output := "o" })] }
    name := .str "c", description := .null, inputs := [{ name := "y", default := some "1" }]
    outputs := [{ name := "r" }], metadata := [] }

/-- The flat pipeline differs in an order. -/
theorem Vertex.samplePipeline_swapped : samplePipeline.Rearranged swappedPipeline :=
  .graph (by decide) (.cons (.resolved .container (by decide) (.refl _))
    (.cons (.resolved .container (by decide) (List.reverse_perm _).symm) .nil)) (.swap _ _ _)

/-- In another order the pipelines of the examples have the workflow and the job that they have
    anyway. -/
theorem samplePipelines_rearranged :
    (∃ w, (Argo.compile Argo.sampleContext Argo.samplePipeline []).result = .ok w ∧
      (Argo.compile Argo.sampleContext Argo.swappedPipeline []).result = .ok w) ∧
    ∃ job, (Vertex.compile Vertex.sampleContext Vertex.samplePipeline [] "").result = .ok job ∧
      (Vertex.compile Vertex.sampleContext Vertex.swappedPipeline [] "").result = .ok job := by
  constructor
  · obtain ⟨w, hw⟩ := Argo.samplePipeline_result
    exact ⟨w, hw, ((compile_rearranged Argo.samplePipeline_swapped _ _).1 w).mp hw⟩
  · obtain ⟨job, hjob⟩ := Vertex.samplePipeline_result
    exact ⟨job, hjob,
      ((compile_rearranged Vertex.samplePipeline_swapped _ _).2 _ _ job).mp hjob⟩

/-! ### Shared parts -/

/-- **Sharing is exact.**  Whatever the pipeline, its arguments and the configuration are, as long
    as digests tell the texts of records apart: no two templates of a workflow are equal, nor two
    executors or components of a job; and every task has a template, or a component and an executor,
    that is equal to what is made for this task from its own arguments. -/
theorem sharing_exact :
    (∀ (context : Context) (c : Component) (arguments : Keyed Value) (w : Argo.Workflow),
      (Argo.compile context c arguments).result = .ok w →
      (Argo.compile context c arguments).SeparatesDigests →
      ∃ s, context.settings = .ok s ∧
        Argo.SharedExactly (· ∈ (Argo.compile context c arguments).digested) s c w) ∧
    ∀ (context : Context) (c : Component) (arguments : Keyed Value)
      (outputDirectory contextName : String) (job : Vertex.Job),
      (Vertex.compile context c arguments outputDirectory contextName).result = .ok job →
      (Vertex.compile context c arguments outputDirectory contextName).SeparatesDigests →
      ∃ s g order, context.settings = .ok s ∧ Vertex.asGraph c = .ok g ∧
        g.order c.inputNames = .ok order ∧
        Vertex.SharedExactly c g (emittedNames s order) job :=
  ⟨fun _ _ _ _ hok hdigests => Argo.compile_shared_exactly hok hdigests,
    fun _ _ _ _ _ _ hok hdigests => Vertex.job_shared_exactly hok hdigests⟩

/-- Sharing is exact in the workflow and in the job of the examples. -/
theorem samplePipelines_shared_exactly :
    (∃ w s, (Argo.compile Argo.sampleContext Argo.samplePipeline []).result = .ok w ∧
      Argo.sampleContext.settings = .ok s ∧
      Argo.SharedExactly
        (· ∈ (Argo.compile Argo.sampleContext Argo.samplePipeline []).digested) s
        Argo.samplePipeline w) ∧
    ∃ job s g order,
      (Vertex.compile Vertex.sampleContext Vertex.samplePipeline [] "").result = .ok job ∧
      Vertex.sampleContext.settings = .ok s ∧ Vertex.asGraph Vertex.samplePipeline = .ok g ∧
      g.order Vertex.samplePipeline.inputNames = .ok order ∧
      Vertex.SharedExactly Vertex.samplePipeline g (emittedNames s order) job := by
  constructor
  · obtain ⟨w, hw⟩ := Argo.samplePipeline_result
    obtain ⟨s, hs, hshared⟩ := sharing_exact.1 _ _ _ w hw
      (separatesDigests_of_nodup Argo.samplePipeline_compiles.2)
    exact ⟨w, s, hw, hs, hshared⟩
  · obtain ⟨job, hjob⟩ := Vertex.samplePipeline_result
    obtain ⟨s, g, order, h⟩ := sharing_exact.2 _ _ _ _ "pipeline" job hjob
      (separatesDigests_of_nodup Vertex.samplePipeline_compiles.2)
    exact ⟨job, s, g, order, hjob, h⟩

/-! ### Conversions -/

/-- **Conversions are exact.**  Whatever the pipeline, its arguments and the configuration are, as
    long as digests tell the texts of records apart: the template of every graph has one task for
    each task of the graph and one conversion for each text of an artifact that a container needs by
    value, every conversion is used, and one template converts if there is a conversion at all.  The
    graph of a job has one task for each task of the pipeline and one conversion for each constant
    and each input of the pipeline that a container needs as a file, every conversion is used, and
    one component converts if there is a conversion at all. -/
theorem conversions_exact :
    (∀ (context : Context) (c : Component) (arguments : Keyed Value) (w : Argo.Workflow),
      (Argo.compile context c arguments).result = .ok w →
      (Argo.compile context c arguments).SeparatesDigests →
      ∃ s, context.settings = .ok s ∧ Argo.ConversionsExact s c w) ∧
    ∀ (context : Context) (c : Component) (arguments : Keyed Value)
      (outputDirectory contextName : String) (job : Vertex.Job),
      (Vertex.compile context c arguments outputDirectory contextName).result = .ok job →
      (Vertex.compile context c arguments outputDirectory contextName).SeparatesDigests →
      ∃ s g order, context.settings = .ok s ∧ Vertex.asGraph c = .ok g ∧
        g.order c.inputNames = .ok order ∧ Vertex.Accounts c g (emittedNames s order) job :=
  ⟨fun _ _ _ _ hok hdigests => Argo.compile_conversions hok hdigests,
    fun _ _ _ _ _ _ hok hdigests => Vertex.job_conversions hok hdigests⟩

/-- Conversions are exact in the workflow and in the job of the examples, each of which has one. -/
theorem samplePipelines_conversions_exact :
    (∃ w s, (Argo.compile Argo.sampleContext Argo.samplePipeline []).result = .ok w ∧
      Argo.sampleContext.settings = .ok s ∧ Argo.ConversionsExact s Argo.samplePipeline w) ∧
    ∃ job s g order,
      (Vertex.compile Vertex.sampleContext Vertex.samplePipeline [] "").result = .ok job ∧
      Vertex.sampleContext.settings = .ok s ∧ Vertex.asGraph Vertex.samplePipeline = .ok g ∧
      g.order Vertex.samplePipeline.inputNames = .ok order ∧
      Vertex.Accounts Vertex.samplePipeline g (emittedNames s order) job := by
  constructor
  · obtain ⟨w, hw⟩ := Argo.samplePipeline_result
    obtain ⟨s, hs, hexact⟩ := conversions_exact.1 _ _ _ w hw
      (separatesDigests_of_nodup Argo.samplePipeline_compiles.2)
    exact ⟨w, s, hw, hs, hexact⟩
  · obtain ⟨job, hjob⟩ := Vertex.samplePipeline_result
    obtain ⟨s, g, order, h⟩ := conversions_exact.2 _ _ _ _ "pipeline" job hjob
      (separatesDigests_of_nodup Vertex.samplePipeline_compiles.2)
    exact ⟨job, s, g, order, hjob, h⟩

/-! ### Declarations -/

/-- **Containers declare exactly the inputs they use, and every output they write.**  In a workflow,
    every template with a container of the pipeline declares the inputs that are reached in the
    command line of this container, and as long as digests tell the texts of records apart, the
    template of every task does so for its own container.  In a job, as long as digests do that, the
    component of every task declares the inputs, and the strings are those of the executor that the
    component names. -/
theorem containers_declare_uses :
    (∀ (context : Context) (c : Component) (arguments : Keyed Value) (w : Argo.Workflow),
      (Argo.compile context c arguments).result = .ok w → ∃ s, context.settings = .ok s ∧
        (∀ entry ∈ w.templates, ∀ parameters artifacts outputs launch,
          entry.2 = .container parameters artifacts outputs launch →
          ∃ path here container, c.at? path = some here ∧
            here.component.implementation = .container container ∧
            Argo.DeclaresUses here.arguments container entry.2) ∧
        ((Argo.compile context c arguments).SeparatesDigests → ∀ path here container,
          c.at? path = some here → here.component.implementation = .container container →
          ∃ site t, Argo.emittedPath? s c path = some site ∧ w.templateAt? site = some t ∧
            Argo.DeclaresUses here.arguments container t)) ∧
    ∀ (context : Context) (c : Component) (arguments : Keyed Value)
      (outputDirectory contextName : String) (job : Vertex.Job),
      (Vertex.compile context c arguments outputDirectory contextName).result = .ok job →
      (Vertex.compile context c arguments outputDirectory contextName).SeparatesDigests →
      ∃ s g order, context.settings = .ok s ∧ Vertex.asGraph c = .ok g ∧
        g.order c.inputNames = .ok order ∧
        ∀ id task, g.task? id = some task → ∃ component container name made found launch,
          task.reference.spec = some component ∧
            component.implementation = .container container ∧
          Keyed.find? (emittedNames s order) id = some name ∧
          Keyed.find? job.root.tasks name = some made ∧
          Keyed.find? job.components made.component = some found ∧
          Keyed.find? job.executors found.executor = some launch ∧
          Vertex.DeclaresUses component task.arguments c.inputNames container found launch :=
  ⟨fun _ _ _ _ hok => Argo.compile_declares hok,
    fun _ _ _ _ _ _ hok hdigests => Vertex.job_declares hok hdigests⟩

/-- In the workflow of the examples, the container in the inner graph declares what it reads.  In
    the job, the second task reads a number, the value of an artifact and a file. -/
theorem samplePipelines_declare_uses :
    (∃ w site t, (Argo.compile Argo.sampleContext Argo.samplePipeline []).result = .ok w ∧
      w.templateAt? site = some t ∧ "x" ∈ t.inputParameters ∧
      Occurs (Argo.braced "inputs.parameters.x") t.texts) ∧
    ∃ job name made found launch,
      (Vertex.compile Vertex.sampleContext Vertex.samplePipeline [] "").result = .ok job ∧
      Keyed.find? job.root.tasks name = some made ∧
      Keyed.find? job.components made.component = some found ∧
      Keyed.find? job.executors found.executor = some launch ∧
      "n" ∈ Keyed.keys found.parameters ∧ "x" ∈ found.artifacts ∧
        "f" ∈ found.artifacts ∧
      Occurs (Vertex.braced "inputs.artifacts['x'].value") launch.texts := by
  -- The command lines of the two containers are evaluated; what follows from them is the general
  -- law.
  constructor
  · obtain ⟨w, hw⟩ := Argo.samplePipeline_result
    obtain ⟨s, -, -, htasks⟩ := containers_declare_uses.1 _ _ _ w hw
    obtain ⟨site, t, -, ht, hdeclares⟩ := htasks
      (separatesDigests_of_nodup Argo.samplePipeline_compiles.2) ["r", "q"] _ _ rfl rfl
    have hx : "x" ∈ t.inputParameters := (hdeclares.parameters "x").mpr
      ⟨"x", .inr (.inl ⟨_, rfl, _, List.mem_cons_self, .here⟩), by decide +kernel⟩
    exact ⟨w, site, t, hw, ht, hx, hdeclares.parameterTexts "x" hx⟩
  · obtain ⟨job, hjob⟩ := Vertex.samplePipeline_result
    obtain ⟨s, g, order, -, hg, -, htasks⟩ :=
      containers_declare_uses.2 _ _ _ _ "pipeline" job hjob
      (separatesDigests_of_nodup Vertex.samplePipeline_compiles.2)
    obtain rfl : Vertex.sampleGraph = g := Except.ok.inj hg
    obtain ⟨component, container, name, made, found, launch, hspec, hcontainer, -, hmade, hfound,
      hlaunch, hdeclares⟩ := htasks "q" _ rfl
    obtain rfl : Vertex.sampleConsumer = component := Option.some.inj hspec
    obtain rfl := Implementation.container.inj hcontainer
    have hreaches : ∀ arguments,
        ∀ p ∈ [Placeholder.inputValue "n", .inputValue "x", .inputPath "f"],
          Container.Reaches arguments p
            { image := "a", args := some [.inputValue "n", .inputValue "x", .inputPath "f"] } :=
      fun _ p hp => .inr (.inl ⟨_, rfl, p, hp, .here⟩)
    have hnot : "x" ∉ Vertex.sampleConsumer.parameterInputs
        [ ("n", .literal "z"), ("x", .taskOutput { task := "p", output := "o" }),
          ("f", .graphInput "y" .null) ] Vertex.samplePipeline.inputNames := by decide
    exact ⟨job, name, made, found, launch, hjob, hmade, hfound, hlaunch,
      (hdeclares.parameters "n").mpr ⟨hreaches _ _ (by simp), by decide⟩,
      (hdeclares.artifacts "x").mpr (.inr ⟨hreaches _ _ (by simp), hnot⟩),
      (hdeclares.artifacts "f").mpr (.inl (hreaches _ _ (by simp))),
      hdeclares.valueTexts "x" (hreaches _ _ (by simp)) hnot⟩

end PipelineCompiler
