import PipelineCompiler.Proofs.Argo.Failing
import PipelineCompiler.Proofs.Argo.Kinds
import PipelineCompiler.Proofs.Component.Attributed
import PipelineCompiler.Proofs.Unattributed
import PipelineCompiler.Proofs.Vertex.Closure
import PipelineCompiler.Proofs.Vertex.Compile

/-!
# Errors belong to the tasks where they came up

Each graph puts the id of a task in front of the path of what fails in it, and changes nothing else.

* `Argo.RaisedAt`, `Vertex.RaisedAt` — an error comes up at a path, and nobody has attributed it
  to a task by then;
* `Argo.Raises.own`, `Vertex.unattributed_compileTask` — what a step or a task fails with belongs
  to no task yet, apart from faults in plans;
* `Argo.compile_attributed`, `Vertex.compile_attributed` — every error of a compilation is one
  that came up at the end of its path of tasks;
* `failures_attributed` — whatever fails to be compiled or loaded with an error, the path of the
  error is a chain of tasks, and the error is one that came up at the last of them;
* `nestedDocument`, `nestedDocument_error` — a serialized component with a task that cannot be
  read;
* `samplePipelines_attributed` — errors of a workflow, of a job and of the loader.
-/

namespace PipelineCompiler.Argo

/-! ### Errors of workflows -/

variable {s : Settings} {c : Component}

/-- An error comes up at a path: a step fails with it, or the plan of the graph around finds it.
    Nobody has attributed it to a task by then. -/
inductive RaisedAt (s : Settings) (c : Component) : List String → CompilationError → Prop
  | step {path : List String} {raised : CompilationError}
      (raises : Raises s c path (.compilation raised)) (own : raised.taskPath = []) :
      RaisedAt s c path raised
  | fault {path : List String} {around : Placed} {kinds : Keyed InputKind}
      {templates : Registry Template} {g : Graph} {id : String} {task : GraphTask} {cause : Cause}
      (visits : Visits s c path around kinds templates)
      (graph : around.component.implementation = .graph g) (entry : (id, task) ∈ g.tasks)
      (found : g.taskFault? around.component.inputNames task = some cause) :
      RaisedAt s c (id :: path) { cause }

/-- Nobody has attributed such an error to a task. -/
theorem RaisedAt.own {path : List String} {raised : CompilationError}
    (h : RaisedAt s c path raised) : raised.taskPath = [] := by
  cases h with
  | step raises own => exact own
  | fault => rfl

/-- **What a step fails with** belongs to no task yet, unless it is a fault that a plan finds: this
    is attributed to its task at once. -/
theorem Raises.own {path : List String} {e : Failure} (h : Raises s c path e) :
    e.Unattributed ∨ ∃ id cause, e = (Failure.ofCause cause).within id ∧
      RaisedAt s c (id :: path) { cause } := by
  have hlenient := isLenient_unattributed
  cases h with
  | container _ _ failed =>
    exact .inl (failsOnly_containerBlueprint hlenient unattributed_ofCommandLine s _ _ _ e failed)
  | order visits graph failed =>
    rcases order_unattributed failed with ⟨id, task, cause, hentry, hfault, he⟩ | hown
    · exact .inr ⟨id, cause, he, .fault visits graph hentry hfault⟩
    · exact .inl hown
  | start _ _ _ failed => exact .inl (failsOnly_start hlenient s _ _ _ e failed)
  | kinds _ _ _ _ _ failed => exact .inl (failsOnly_kindsOf hlenient _ _ _ e failed)
  | task _ _ _ _ _ _ _ failed =>
    exact .inl (failsOnly_addTask hlenient (fun _ => unattributed_ofCause _)
      (fun _ => unattributed_ofCause _) s _ _ _ _ _ e failed)
  | outputs _ _ _ failed => exact .inl (failsOnly_graphBlueprint hlenient _ _ e failed)

/-! ### Tasks of the pipeline -/

/-- The tasks of a graph that the compilation comes to are tasks of the pipeline. -/
theorem Visits.leads {path : List String} {around : Placed} {kinds : Keyed InputKind}
    {templates : Registry Template} {g : Graph} {id : String} {task : GraphTask}
    (h : Visits s c path around kinds templates)
    (graph : around.component.implementation = .graph g) (entry : (id, task) ∈ g.tasks) :
    c.Leads (id :: path).reverse := by
  rw [List.reverse_cons]
  exact .outward h.place (.single graph (List.mem_map_of_mem entry))

/-- **Errors come up at tasks of the pipeline**, and at the pipeline itself. -/
theorem RaisedAt.leads {path : List String} {raised : CompilationError}
    (h : RaisedAt s c path raised) : c.Leads path.reverse := by
  cases h with
  | step raises own =>
    cases raises with
    | container visits | order visits | start visits => exact .of_at? visits.place
    | outputs visits => exact .of_at? visits.place
    | kinds visits begins _ found => exact visits.leads begins.graph (Keyed.mem_of_find? found)
    | task visits begins _ found => exact visits.leads begins.graph (Keyed.mem_of_find? found)
  | fault visits graph entry => exact visits.leads graph entry

/-! ### Every error -/

/-- An error of a compilation is attributed to the tasks where it came up, and tells what it told
    there.  It belongs to no task if the caller gives nothing for an input of the pipeline. -/
structure Attributed (context : Context) (c : Component) (e : CompilationError) : Prop where
  leads : c.Leads e.taskPath
  raised : (∃ name, e = { cause := .missingArgument name }) ∨
    ∃ s raised, context.settings = .ok s ∧ RaisedAt s c e.taskPath.reverse raised ∧
      raised.taskPath = [] ∧ e.Tells raised

/-- **Every error of a compilation is attributed** to the tasks where it came up. -/
theorem compile_attributed {context : Context} {arguments : Keyed Value} {e : CompilationError}
    (h : (compile context c arguments).result = .error (.compilation e)) :
    Attributed context c e := by
  by_cases hcaller : (Failure.compilation e).IsOfCaller
  · obtain ⟨name, rfl⟩ := hcaller e rfl
    exact ⟨trivial, .inl ⟨name, rfl⟩⟩
  obtain ⟨s, path, e', hs, hraises, he⟩ := compile_raises isLenient_isOfCaller
    isOfCaller_missingArgument h hcaller
  obtain ⟨inner, rfl, hpath⟩ := Failure.eq_of_outward he.symm
  -- the error has the path of the step, or one more task that the plan has found
  have hraised : RaisedAt s c e.taskPath.reverse { cause := e.cause } := by
    rcases hraises.own with hown | ⟨id, cause, heq, hraised⟩
    · obtain rfl : inner = [] := hown _ rfl
      rw [hpath, List.append_nil, List.reverse_reverse]
      exact .step hraises rfl
    · obtain ⟨hcause, hinner⟩ := CompilationError.mk.inj (Failure.compilation.inj heq)
      obtain rfl : inner = [id] := hinner
      rw [hpath, List.reverse_append, List.reverse_reverse]
      exact (show e.cause = cause from hcause) ▸ hraised
  have hleads := hraised.leads
  rw [List.reverse_reverse] at hleads
  exact ⟨hleads, .inr ⟨s, _, hs, hraised, hraised.own, CompilationError.tells_of_cause rfl⟩⟩

end PipelineCompiler.Argo

namespace PipelineCompiler.Vertex

/-! ### Errors of jobs -/

variable {s : Settings} {c : Component} {g : Graph}

/-! ### Steps without compilation errors -/

section Lenient

variable {p : Failure → Prop} (hp : IsLenient p)

include hp

/-- A stem that is needed for a name, and a limit for names that is not there. -/
theorem failsOnly_checkedStem (s : Settings) {stem : Except Failure String}
    (hstem : FailsOnly p stem) : FailsOnly p (checkedStem s stem) :=
  FailsOnly.bind (failsOnly_length hp s _) fun _ _ => hstem

/-- An executor that gets no name. -/
theorem failsOnly_addExecutor (s : Settings) (d : Draft) {stem : Except Failure String}
    (hstem : FailsOnly p stem) (launch : Launch) :
    FailsOnly p (d.addExecutor s stem launch).result :=
  (failsOnly_intern hp _ _ (failsOnly_checkedStem hp s hstem) _).bindRecorded fun _ _ =>
    failsOnly_ok _

/-- A component that gets no name. -/
theorem failsOnly_addComponent (s : Settings) (d : Draft) {stem : Except Failure String}
    (hstem : FailsOnly p stem) (place : String) (entry : ComponentEntry) :
    FailsOnly p (d.addComponent s stem place entry).result := by
  unfold Draft.addComponent
  refine (failsOnly_intern hp _ _ (failsOnly_checkedStem hp s hstem) _).bindRecorded
    fun given _ => ?_
  dsimp only
  split
  · exact failsOnly_ok _
  · exact failsOnly_ok _

/-- A setting that is not there. -/
theorem failsOnly_caching (s : Settings) : FailsOnly p (caching s) := (failsOnly_value hp s _).map _

/-- A parameter that cannot be converted. -/
theorem failsOnly_convert (s : Settings) (d : Draft) (source : ParameterSource)
    (stem place : String) : FailsOnly p (d.convert s source stem place).result := by
  unfold Draft.convert
  refine FailsOnly.bindRecorded ((failsOnly_value hp s _).bind fun _ _ => failsOnly_ok _)
    fun launch _ => ?_
  refine (failsOnly_addExecutor hp s d (failsOnly_ok _) launch).bindRecorded fun executed _ => ?_
  refine (failsOnly_addComponent hp s _ (failsOnly_ok _) _ _).bindRecorded fun declared _ => ?_
  refine FailsOnly.bindRecorded (failsOnly_caching hp s) fun caching _ => ?_
  refine (failsOnly_intern hp _ _ (failsOnly_checkedStem hp s (failsOnly_ok _)) _).bindRecorded
    fun given _ => ?_
  dsimp only
  split
  · exact failsOnly_ok _
  · exact failsOnly_ok _

/-- An input that cannot be bound to a parameter. -/
theorem failsOnly_parameterFor (d : Draft) (declared : Value) (place : String)
    (argument : Argument) : FailsOnly p (d.parameterFor declared place argument).result := by
  cases argument with
  | literal text =>
    unfold Draft.parameterFor
    dsimp only
    split
    · exact failsOnly_ok _
    · exact failsOnly_ok _
  | graphInput => exact failsOnly_ok _
  | taskOutput source =>
    exact FailsOnly.bindRecorded (failsOnly_fetch hp _ _) fun _ _ => failsOnly_ok _

/-- An input that cannot be bound to a file. -/
theorem failsOnly_artifactFor (s : Settings) (d : Draft) (inputs : List String) (place : String)
    (argument : Argument) : FailsOnly p (d.artifactFor s inputs place argument).result := by
  cases argument with
  | literal => exact failsOnly_convert hp s d _ _ _
  | graphInput input type =>
    rw [Draft.artifactFor]
    split
    · exact failsOnly_convert hp s _ _ _ _
    · exact failsOnly_ok _
  | taskOutput source =>
    exact FailsOnly.bindRecorded (failsOnly_fetch hp _ _) fun _ _ => failsOnly_ok _

/-- Declared inputs that are not there. -/
theorem failsOnly_typesOf (c : Component) (names : List String) :
    FailsOnly p (typesOf c names) := by
  induction names with
  | nil => exact failsOnly_ok _
  | cons name rest ih =>
    exact (failsOnly_fetchInput hp c name).bind fun _ _ => ih.bind fun _ _ => failsOnly_ok _

/-- Tasks that get no names. -/
theorem failsOnly_reserveAll (d : Draft) (order : List String) :
    FailsOnly p (d.reserveAll order) :=
  failsOnly_foldlM (fun _ _ => (FailsOnly.bind (failsOnly_reserve hp _ _)
    fun _ _ => failsOnly_ok _).bind fun _ _ => failsOnly_ok _) order d

/-- Outputs that come from nowhere. -/
theorem failsOnly_outputsOf (d : Draft) (outputValues : List (String × TaskOutput)) :
    FailsOnly p (outputsOf d outputValues) := by
  induction outputValues with
  | nil => exact failsOnly_ok _
  | cons output rest ih =>
    exact (failsOnly_fetch hp _ _).bind fun _ _ => ih.bind fun _ _ => failsOnly_ok _

variable (hmissing : ∀ name, p (.ofCause (.missingArgument name)))

include hmissing

/-- Inputs that cannot be bound to parameters. -/
theorem failsOnly_bindParameters (b : Binder) (names : List String) (d : Draft) :
    FailsOnly p (b.bindParameters names d).result := by
  induction names generalizing d with
  | nil => exact failsOnly_ok _
  | cons name rest ih =>
    refine FailsOnly.bindRecorded (failsOnly_fetchInput hp _ _) fun input _ => ?_
    refine FailsOnly.bindRecorded (failsOnly_bound (hmissing _)) fun argument _ => ?_
    exact (failsOnly_parameterFor hp d _ _ argument).bindRecorded fun bound _ =>
      (ih bound.2).bindRecorded fun _ _ => failsOnly_ok _

/-- Inputs that cannot be bound to files. -/
theorem failsOnly_bindArtifacts (s : Settings) (b : Binder) (names : List String) (d : Draft) :
    FailsOnly p (b.bindArtifacts s names d).result := by
  induction names generalizing d with
  | nil => exact failsOnly_ok _
  | cons name rest ih =>
    refine FailsOnly.bindRecorded (failsOnly_fetchInput hp _ _) fun input _ => ?_
    refine FailsOnly.bindRecorded (failsOnly_bound (hmissing _)) fun argument _ => ?_
    exact (failsOnly_artifactFor hp s d _ _ argument).bindRecorded fun bound _ =>
      (ih bound.2).bindRecorded fun _ _ => failsOnly_ok _

/-- Inputs of the pipeline that are given nothing. -/
theorem failsOnly_rootConstants (c : Component) (texts : Keyed String)
    (types : Keyed PrimitiveType) : FailsOnly p (rootConstants c texts types).result := by
  induction types with
  | nil => exact failsOnly_ok _
  | cons entry rest ih =>
    obtain ⟨name, type⟩ := entry
    unfold rootConstants
    refine FailsOnly.bindRecorded (failsOnly_fetchInput hp _ _) fun input _ => ?_
    refine FailsOnly.bindRecorded (failsOnly_bound (hmissing _)) fun text _ => ?_
    dsimp only
    split
    · exact FailsOnly.bindRecorded (failsOnly_ok _) fun _ _ => ih.bindRecorded fun _ _ =>
        failsOnly_ok _
    · exact ih.bindRecorded fun _ _ => failsOnly_ok _

variable (hcommand : HoldsOfCommandLines p)

include hcommand

/-- A task that cannot be added. -/
theorem failsOnly_addTask (s : Settings) (b : Binder) (container : Container) (d : Draft) :
    FailsOnly p (addTask s b container d).result := by
  have hname : ∀ standIn, FailsOnly p (nameOr b.component.name standIn) :=
    fun standIn => failsOnly_nameOr hp _ standIn
  unfold addTask
  refine FailsOnly.bindRecorded (failsOnly_commandLine _ hcommand _) fun line _ => ?_
  refine (failsOnly_addExecutor hp s d (hname _) _).bindRecorded fun executed _ => ?_
  refine FailsOnly.bindRecorded (failsOnly_typesOf hp _ _) fun types _ => ?_
  refine (failsOnly_addComponent hp s _ (hname _) _ _).bindRecorded fun declared _ => ?_
  refine (failsOnly_bindParameters hp hmissing b _ _).bindRecorded fun bound _ => ?_
  refine (failsOnly_bindArtifacts hp hmissing s b _ _).bindRecorded fun given _ => ?_
  refine FailsOnly.bindRecorded (failsOnly_caching hp s) fun caching _ => ?_
  exact FailsOnly.bindRecorded (failsOnly_fetch hp _ _) fun _ _ => failsOnly_ok _

end Lenient

/-! ### Tasks -/

/-- **What a task fails with** belongs to no task yet. -/
theorem unattributed_compileTask (s : Settings) (inputs : List String) (id : String)
    (task : GraphTask) (d : Draft) :
    FailsOnly Failure.Unattributed (compileTask s inputs id task d).result := by
  unfold compileTask
  split
  · exact failsOnly_error (unattributed_ofCause _)
  · split
    · exact failsOnly_error (unattributed_ofCause _)
    · exact failsOnly_addTask isLenient_unattributed (fun _ => unattributed_ofCause _)
        unattributed_ofCommandLine s _ _ d

/-! ### Every error -/

/-- An error comes up in a graph: a task fails with it when those before are compiled, the plan
    finds it in a task, or the plan fails as a whole.  Nobody has attributed it to a task by
    then. -/
inductive RaisedAt (s : Settings) (c : Component) (g : Graph) :
    List String → CompilationError → Prop
  | task {before rest : List String} {id : String} {task : GraphTask} {start d : Draft}
      {raised : CompilationError} (ordered : g.order c.inputNames = .ok (before ++ id :: rest))
      (named : (Draft.empty s.policy).reserveAll (before ++ id :: rest) = .ok start)
      (compiled : (compileTasks s g c.inputNames before start).result = .ok d)
      (found : g.task? id = some task)
      (failed : (compileTask s c.inputNames id task d).result = .error (.compilation raised)) :
      RaisedAt s c g [id] raised
  | fault {id : String} {task : GraphTask} {cause : Cause} (entry : (id, task) ∈ g.tasks)
      (found : g.taskFault? c.inputNames task = some cause) : RaisedAt s c g [id] { cause }
  | order {raised : CompilationError}
      (failed : g.order c.inputNames = .error (.compilation raised))
      (own : raised.taskPath = []) : RaisedAt s c g [] raised

/-- Nobody has attributed such an error to a task. -/
theorem RaisedAt.own {path : List String} {raised : CompilationError}
    (h : RaisedAt s c g path raised) : raised.taskPath = [] := by
  cases h with
  | task _ _ _ _ failed => exact unattributed_compileTask _ _ _ _ _ _ failed _ rfl
  | fault => rfl
  | order _ own => exact own

/-- **Errors come up at tasks of the pipeline**, and at the pipeline itself. -/
theorem RaisedAt.leads (himpl : c.implementation = .graph g) {path : List String}
    {raised : CompilationError} (h : RaisedAt s c g path raised) : c.Leads path := by
  cases h with
  | task _ _ _ found => exact .single himpl (List.mem_map_of_mem (Keyed.mem_of_find? found))
  | fault entry => exact .single himpl (List.mem_map_of_mem entry)
  | order => trivial

/-- **Where the graph of a job fails**: an error comes up in it, and is attributed to the task
    around, if there is one. -/
theorem compileGraph_error {e : CompilationError}
    (h : (compileGraph s c g).result = .error (.compilation e)) :
    ∃ raised, RaisedAt s c g e.taskPath raised ∧ e.cause = raised.cause := by
  have hlenient : IsLenient fun e => e.verdict? = none := fun _ he => he
  unfold compileGraph at h
  -- The compilation of a graph step by step; besides the order and the tasks, no step can fail with
  -- a compilation error.
  rcases Recorded.bind_eq_error.mp h with h | ⟨order, horder, h⟩
  · rcases order_unattributed h with ⟨id, task, cause, hentry, hfault, he⟩ | hown
    · obtain rfl := Failure.compilation.inj he
      exact ⟨_, .fault hentry hfault, rfl⟩
    · have hpath := hown e rfl
      exact ⟨e, hpath ▸ .order h hpath, rfl⟩
  rcases Recorded.unless_eq_error h with h | h
  · cases failsOnly_length hlenient s _ _ h
  rcases Recorded.bind_eq_error.mp h with h | ⟨start, hstart, h⟩
  · cases failsOnly_reserveAll hlenient _ _ _ h
  rcases Recorded.bind_eq_error.mp h with h | ⟨d, -, h⟩
  · have hplanned := order_planned horder
    have htasks : ∀ id ∈ order, ∃ task, g.task? id = some task := fun id hid =>
      Keyed.exists_find?_of_mem_keys ((hplanned.mem_iff id).mp hid)
    obtain ⟨before, id, rest, task, d, e', rfl, hcompiled, htask, hfailed, he⟩ :=
      tasks_error (compileTask s c.inputNames) (fun _ => rfl)
        (fun id task rest d htask => compileTasks_cons htask rest d) htasks h
    obtain ⟨inner, rfl, hpath⟩ := Failure.eq_of_within he.symm
    obtain rfl : inner = [] := unattributed_compileTask _ _ _ _ _ _ hfailed _ rfl
    refine ⟨{ cause := e.cause }, ?_, rfl⟩
    rw [hpath]
    exact .task horder hstart hcompiled htask hfailed
  rcases Recorded.bind_eq_error.mp h with h | ⟨parameters, -, h⟩
  · cases failsOnly_typesOf hlenient _ _ _ h
  rcases Recorded.bind_eq_error.mp h with h | ⟨outputs, -, h⟩
  · cases failsOnly_outputsOf hlenient _ _ _ h
  · cases h

/-- An error of a job is attributed to the task of a graph where it came up, and tells what it told
    there.  It belongs to no task if the caller gives nothing for an input of the pipeline. -/
structure Attributed (context : Context) (c : Component) (g : Graph) (e : CompilationError) :
    Prop where
  leads : c.Leads e.taskPath
  raised : (∃ name, e = { cause := .missingArgument name }) ∨
    ∃ s raised, context.settings = .ok s ∧ RaisedAt s c g e.taskPath raised ∧
      raised.taskPath = [] ∧ e.Tells raised

/-- **Every error of a job is attributed** to the task where it came up. -/
theorem compile_attributed (himpl : c.implementation = .graph g) {context : Context}
    {arguments : Keyed Value} {outputDirectory contextName : String} {e : CompilationError}
    (h : (compile context c arguments outputDirectory contextName).result
      = .error (.compilation e)) : Attributed context c g e := by
  have hlenient : IsLenient fun e => e.verdict? = none := fun _ he => he
  unfold compile at h
  -- Settings and types fail in other ways, so the error is that of the graph, or of an argument
  -- that is missing for the whole pipeline.
  rcases Recorded.bind_eq_error.mp h with h | ⟨s, hs, h⟩
  · cases failsOnly_settings hlenient context _ h
  rcases Recorded.bind_eq_error.mp h with h | ⟨limit, -, h⟩
  · cases failsOnly_value hlenient s _ _ h
  have hgraph : (liftM (asGraph c) : Recorded Graph).result = .ok g := by
    simp only [asGraph, himpl]
    rfl
  rw [Recorded.result_bind_of_ok hgraph] at h
  rcases Recorded.bind_eq_error.mp h with h | ⟨made, -, h⟩
  · obtain ⟨raised, hraised, hcause⟩ := compileGraph_error h
    exact ⟨hraised.leads himpl, .inr ⟨s, raised, hs, hraised, hraised.own,
      CompilationError.tells_of_cause hcause⟩⟩
  rcases Recorded.bind_eq_error.mp h with h | ⟨nameLimit, -, h⟩
  · cases failsOnly_length hlenient s _ _ h
  rcases Recorded.bind_eq_error.mp h with h | ⟨sdkVersion, -, h⟩
  · cases failsOnly_value hlenient s _ _ h
  rcases Recorded.bind_eq_error.mp h with h | ⟨schemaVersion, -, h⟩
  · cases failsOnly_value hlenient s _ _ h
  rcases Recorded.bind_eq_error.mp h with h | ⟨texts, -, h⟩
  · cases failsOnly_rootTexts hlenient c _ _ h
  rcases Recorded.bind_eq_error.mp h with h | ⟨parameters, -, h⟩
  · obtain ⟨name, rfl⟩ :=
      failsOnly_rootConstants isLenient_isOfCaller isOfCaller_missingArgument
      c _ _ _ h e rfl
    exact ⟨trivial, .inl ⟨name, rfl⟩⟩
  · cases h

end PipelineCompiler.Vertex

namespace PipelineCompiler

/-- **Every error is attributed to a chain of tasks, and otherwise unchanged.**  Whatever the
    component, the arguments and the configuration are: an error of a workflow or of the job of a
    graph has a path of tasks, each in the graph that implements the component of the one before,
    and it tells what was raised at the last of them.  And whatever the value is that is loaded: an
    error that belongs to a task has a path of entries of tasks, each in the component that the one
    before refers to, and it tells what is raised when the last entry alone is read. -/
theorem failures_attributed :
    (∀ context c arguments e,
      (Argo.compile context c arguments).result = .error (.compilation e) →
        Argo.Attributed context c e) ∧
    (∀ context c g arguments outputDirectory contextName e, c.implementation = .graph g →
      (Vertex.compile context c arguments outputDirectory contextName).result =
        .error (.compilation e) → Vertex.Attributed context c g e) ∧
    (∀ v e, Component.ofValue v = .error (.compilation e) → e.taskPath ≠ [] →
      v.Attributed e) :=
  ⟨fun _ _ _ _ h => Argo.compile_attributed h,
    fun _ _ _ _ _ _ _ himpl h => Vertex.compile_attributed himpl h,
    fun _ _ h hpath => ofValue_attributed h hpath⟩

/-! ### The examples -/

/-- A serialized component with a graph in a graph, whose task refers to no component. -/
def nestedDocument : Value :=
  let graph (id : String) (entry : Value) : Value :=
    .ofFields [("implementation",
      .ofFields [("graph", .ofFields [("tasks", .ofFields [(id, entry)])])])]
  graph "a" (.ofFields [("componentRef", .ofFields [("spec", graph "b" (.ofFields []))])])

/-- The task of the inner graph is at fault. -/
theorem nestedDocument_error : ∃ e, Component.ofValue nestedDocument = .error (.compilation e) ∧
    e.cause.diagnosis.kind = .invalidComponent ∧ e.taskPath = ["a", "b"] := by
  apply exists_error_of_verdict
  decide

/-- There is no job of a pipeline with a graph in it: the task with the graph is at fault. -/
theorem constantPipeline_job_error : ∃ e,
    (Vertex.compile Vertex.sampleContext Argo.constantPipeline [] "").result =
      .error (.compilation e) ∧ e.cause.diagnosis.kind = .nestedGraph ∧ e.taskPath = ["q"] := by
  apply exists_error_of_verdict
  decide

/-- The errors of a workflow, of a job and of the loader. -/
theorem samplePipelines_attributed :
    (∃ e, (Argo.compile Argo.sampleContext Argo.constantPipeline []).result =
        .error (.compilation e) ∧ e.taskPath = ["q", "r"] ∧
        Argo.Attributed Argo.sampleContext Argo.constantPipeline e) ∧
    (∃ g e, Argo.constantPipeline.implementation = .graph g ∧
      (Vertex.compile Vertex.sampleContext Argo.constantPipeline [] "").result =
        .error (.compilation e) ∧ e.taskPath = ["q"] ∧
        Vertex.Attributed Vertex.sampleContext Argo.constantPipeline g e) ∧
    ∃ e, Component.ofValue nestedDocument = .error (.compilation e) ∧
      e.taskPath = ["a", "b"] ∧
      nestedDocument.Attributed e := by
  refine ⟨?_, ?_, ?_⟩
  · obtain ⟨e, he, -, hpath⟩ := Argo.constantPipeline_error
    exact ⟨e, he, hpath, failures_attributed.1 _ _ _ e he⟩
  · obtain ⟨e, he, -, hpath⟩ := constantPipeline_job_error
    exact ⟨_, e, rfl, he, hpath, failures_attributed.2.1 _ _ _ _ _ _ e rfl he⟩
  · obtain ⟨e, he, -, hpath⟩ := nestedDocument_error
    have hne : e.taskPath ≠ [] := by
      rw [hpath]
      exact List.cons_ne_nil _ _
    exact ⟨e, he, hpath, failures_attributed.2.2 _ e he hne⟩

end PipelineCompiler
