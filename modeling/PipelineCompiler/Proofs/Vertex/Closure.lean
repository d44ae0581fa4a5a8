import PipelineCompiler.Proofs.Vertex.Compile

namespace PipelineCompiler.Vertex

/-!
# Jobs are closed

* `JobTask.Closed`, `Job.Closed` — all names in a job lead somewhere, nothing is left over, and
  bindings and inputs match;
* `PipelineCompiled.closed` — what is made of a pipeline is closed;
* `job_closed` — every job that is made is closed.

The assumption on digests is about the run itself, as it is for workflows.
-/

variable {P : String → Prop}

/-! ### A pipeline as an example -/

/-- A configuration with short settings. -/
def sampleContext : Context :=
  { target := "vertex"
    config := .map [(.str "vertex", .ofFields [
      ("sdk_version", .str "1"), ("schema_version", .str "2"), ("enable_cache", .bool true),
      ("converter_image", .str "a"), ("max_name_length", .int 63)])] }

/-- A component that writes an output. -/
def sampleProducer : Component :=
  { implementation := .container { image := "a", args := some [.outputPath "o"] }
    name := .str "a", description := .null, inputs := [], outputs := [{ name := "o" }]
    metadata := [] }

/-- A component that reads a number, the value of an artifact, and a file. -/
def sampleConsumer : Component :=
  { implementation := .container
      { image := "a"
        args := some [.inputValue "n", .inputValue "x", .inputPath "f"] }
    name := .str "a", description := .null
    inputs := [{ name := "n", type := .str "Integer" }, { name := "x" }, { name := "f" }]
    outputs := [], metadata := [] }

/-- A task that runs a component with some arguments. -/
def sampleTask (c : Component) (arguments : List (String × Argument)) : GraphTask :=
  { reference := { name := .null, digest := .null, tag := .null, url := .null, spec := some c }
    arguments, annotations := [] }

/-- A graph that passes the output of the producer and its own input to the consumer, the latter as
    a file.  What the consumer gets for a number is none. -/
def sampleGraph : Graph :=
  { tasks := [
      ("p", sampleTask sampleProducer []),
      ("q", sampleTask sampleConsumer
        [ ("n", .literal "z"), ("x", .taskOutput { task := "p", output := "o" }),
          ("f", .graphInput "y" .null) ])]
    outputValues := [("r", { task := "p", output := "o" })] }

/-- A pipeline with this graph. -/
def samplePipeline : Component :=
  { implementation := .graph sampleGraph
    name := .str "c", description := .null, inputs := [{ name := "y", default := some "1" }]
    outputs := [{ name := "r" }], metadata := [] }

/-- There is a job of this pipeline, and all digests on the way to it are different. -/
theorem samplePipeline_compiles :
    (compile sampleContext samplePipeline [] "").result.toOption.isSome = true ∧
      ((compile sampleContext samplePipeline [] "").digested.map Digest.sha256Hex).Nodup := by
  decide +kernel

/-- The job of this pipeline. -/
theorem samplePipeline_result :
    ∃ job, (compile sampleContext samplePipeline [] "").result = .ok job := by
  obtain ⟨job, hjob⟩ := Option.isSome_iff_exists.mp samplePipeline_compiles.1
  exact ⟨job, toOption_eq_some.mp hjob⟩

/-! ### Closed jobs -/

/-- All names in a task lead somewhere.  It binds exactly the inputs of its component, and what it
    gets from other tasks is declared there.  These are its dependencies, in order and without
    repetitions, and its document has a field for them unless there are none. -/
structure JobTask.Closed (p : Parts) (task : JobTask) : Prop where
  fits : Fits p.components task
  links : ∀ link ∈ task.links, Supplies p.components p.tasks link
  dependencies : ∀ name, name ∈ task.dependencies ↔ ∃ output, (name, output) ∈ task.links
  sorted : task.dependencies.Pairwise fun s t => Text.codes s < Text.codes t
  document : task.toValue = .ofFields (
    taskHead task.title task.component task.inputFields ++
    (if task.dependencies.isEmpty then [] else [("dependentTasks", .ofTexts task.dependencies)]) ++
    [cachingField task.caching])

/-- All names in a job lead somewhere, and nothing is left over.  Executors, components and tasks
    have different names; all components are used by tasks, and all executors by components.  The
    tasks are closed and come after their dependencies, and the outputs of the job are declared by
    tasks.  The inputs of the job are those that tasks refer to, all of them are parameters, and
    each has a value. -/
structure Job.Closed (j : Job) : Prop where
  executorsNodup : (Keyed.keys j.executors).Nodup
  componentsNodup : (Keyed.keys j.components).Nodup
  tasksNodup : (Keyed.keys j.root.tasks).Nodup
  executors : ∀ name, name ∈ Keyed.keys j.executors ↔
    ∃ entry ∈ j.components, entry.2.executor = name
  components : ∀ name, name ∈ Keyed.keys j.components ↔
    ∃ entry ∈ j.root.tasks, entry.2.component = name
  tasks : ∀ entry ∈ j.root.tasks, entry.2.Closed j.parts
  ordered : Chained (fun earlier entry => ∀ name ∈ entry.2.dependencies,
    name ∈ Keyed.keys earlier) j.root.tasks
  outputs : ∀ output ∈ j.root.outputs, Supplies j.components j.root.tasks output.2
  inputs : ∀ name, name ∈ Keyed.keys j.root.parameters ↔
    ∃ entry ∈ j.root.tasks, name ∈ entry.2.pipelineInputs
  noArtifacts : j.root.artifacts = [] ∧ ∀ entry ∈ j.root.tasks,
    ∀ artifact ∈ entry.2.artifacts, artifact.2.pipelineInput? = none
  values : Keyed.keys j.parameters = Keyed.keys j.root.parameters

/-- The field with the dependencies of a proper task is there unless there are none. -/
theorem JobTask.IsProper.dependencyFields_eq {task : JobTask} (h : task.IsProper) :
    task.dependencyFields = if task.dependencies.isEmpty then []
      else [("dependentTasks", .ofTexts task.dependencies)] := by
  cases task with
  | step => rfl
  | conversion component source caching =>
    -- a conversion has no such field, and a proper one has no links
    have hlink : source.link? = none := h.parameters (conversionInput, source) List.mem_cons_self
    have hnone : (JobTask.conversion component source caching).dependencies = [] := by
      refine List.eq_nil_iff_forall_not_mem.mpr fun name hname => ?_
      obtain ⟨output, hmem⟩ := mem_dependencies.mp hname
      simp [JobTask.links, JobTask.parameters, JobTask.artifacts, hlink] at hmem
    rw [hnone]
    rfl

/-- A proper task is closed when it binds the inputs of its component and when its links lead to
    outputs. -/
theorem JobTask.IsProper.closed {p : Parts} {task : JobTask} (h : task.IsProper)
    (hfits : Fits p.components task)
    (hlinks : ∀ link ∈ task.links, Supplies p.components p.tasks link) : task.Closed p where
  fits := hfits
  links := hlinks
  dependencies := fun _ => mem_dependencies
  sorted := sortedTexts_sorted _
  document := by rw [toValue_task, JobTask.fields, h.dependencyFields_eq]

/-- **What is made of a pipeline is closed.** -/
theorem PipelineCompiled.closed {s : Settings} {c : Component} {arguments : Keyed Value}
    {g : Graph} {order : List String} {job : Job} {d : Draft}
    (h : PipelineCompiled P s c arguments g order job d) : job.Closed := by
  have hsound := h.compiled.sound
  have htasks := h.compiled.tasks
  have hcomponents := h.components
  have hexecutors := h.executors
  -- a link leads to an earlier task, which is one of all tasks
  have hlinks : ∀ entry ∈ d.tasks.entries, ∀ link ∈ entry.2.links,
      Supplies d.components.entries d.tasks.entries link := by
    intro entry hentry link hlink
    obtain ⟨earlier, later, heq⟩ := List.append_of_mem hentry
    have hsupplied := hsound.supplied earlier entry later heq link hlink
    rw [heq]
    exact hsupplied.mono (.refl _) (Keyed.within_append earlier _)
  exact {
    executorsNodup := hexecutors ▸ hsound.executors.nodup
    componentsNodup := hcomponents ▸ hsound.components.nodup
    tasksNodup := htasks ▸ hsound.tasks.nodup
    executors := by
      intro name
      rw [hexecutors, hcomponents]
      refine ⟨hsound.executorsUsed name, ?_⟩
      rintro ⟨entry, hentry, rfl⟩
      exact hsound.labelled entry hentry
    components := by
      intro name
      rw [hcomponents, htasks]
      refine ⟨fun hname => (hsound.componentsUsed name hname).resolve_left List.not_mem_nil, ?_⟩
      rintro ⟨entry, hentry, rfl⟩
      obtain ⟨component, hfind, -⟩ := hsound.fits entry hentry
      exact Keyed.mem_keys_of_find? hfind
    tasks := by
      rw [htasks, h.parts]
      exact fun entry hentry =>
        (hsound.proper entry hentry).closed (hsound.fits entry hentry) (hlinks entry hentry)
    ordered := by
      rw [htasks]
      refine hsound.supplied.imp fun earlier entry hsupplies name hname => ?_
      obtain ⟨output, hlink⟩ := mem_dependencies.mp hname
      obtain ⟨task, component, htask, -⟩ := hsupplies _ hlink
      exact Keyed.mem_keys_of_find? htask
    outputs := by
      rw [hcomponents, htasks]
      exact h.compiled.outputs
    inputs := by
      intro name
      rw [h.compiled.parameters, keys_declaredTypes, htasks]
      refine ⟨fun hname => (hsound.inputsUsed name hname).resolve_left List.not_mem_nil, ?_⟩
      rintro ⟨entry, hentry, hmem⟩
      exact hsound.inputsRecorded entry hentry name hmem
    noArtifacts := by
      rw [htasks]
      exact ⟨h.compiled.artifacts, fun entry hentry => (hsound.proper entry hentry).artifacts⟩
    values := by rw [h.parameters, h.compiled.parameters, keys_rootValues, keys_declaredTypes] }

/-- **Every job is closed.**  Whatever the component, the arguments and the configuration are, when
    there is a job all its names lead somewhere, nothing in it is left over, the bindings of every
    task are for the inputs of its component, and no task comes before one that it depends on. -/
theorem job_closed (context : Context) (c : Component) (arguments : Keyed Value)
    (outputDirectory contextName : String) (job : Job)
    (hok : (compile context c arguments outputDirectory contextName).result = .ok job)
    (hdigests : (compile context c arguments outputDirectory contextName).SeparatesDigests) :
    job.Closed := by
  obtain ⟨s, g, order, d, -, h⟩ := compile_spec hdigests (Recorded.yields_of_result hok)
  exact h.closed

/-- The job of the example is closed. -/
theorem samplePipeline_job_closed :
    ∃ job, (compile sampleContext samplePipeline [] "").result = .ok job ∧ job.Closed := by
  obtain ⟨job, hjob⟩ := samplePipeline_result
  exact ⟨job, hjob, job_closed sampleContext samplePipeline [] "" "pipeline" job hjob
    (separatesDigests_of_nodup samplePipeline_compiles.2)⟩

end PipelineCompiler.Vertex
