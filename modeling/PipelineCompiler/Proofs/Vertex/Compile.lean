import PipelineCompiler.Proofs.CommandLine
import PipelineCompiler.Proofs.Naming.Reserved
import PipelineCompiler.Proofs.Vertex.Binding

namespace PipelineCompiler.Vertex

/-!
# What compiling a pipeline makes

* `StepOf` — a task of the job that was made for a task of the graph;
* `addTask_spec` — one compiled task;
* `compileTasks_spec` — one task after another;
* `GraphCompiled`, `compile_spec` — what is left of the compilation of a graph and of a pipeline;
* `GraphCompiled.stepAt`, `PipelineCompiled.stepAt` — every task of the graph was compiled.

The induction is on the order of the tasks, and the invariant is `Draft.Sound`.  A task needs the
outputs of earlier tasks only, and those are there because the draft has only grown.
-/

variable {P : String → Prop} {s : Settings}

/-! ### Tasks of a job and tasks of a graph -/

/-- The task with a name runs a command line of a component: its component and its executor are
    those that this command line asks for, as far as digests tell. -/
def RunsLine (p : Parts) (component : Component) (line : CommandLine) (name : String) : Prop :=
  ∃ container task found launch, component.implementation = .container container ∧
    Keyed.find? p.tasks name = some task ∧
      Keyed.find? p.components task.component = some found ∧
    SameRecord ComponentEntry.toValue found (.step (declaredTypes component line.valueInputs)
      line.pathInputs component.outputNames found.executor) ∧
    Keyed.find? p.executors found.executor = some launch ∧
    SameRecord executorDocument launch (.ofCommandLine container.image line)

/-- Parts that are added change nothing for what a task runs. -/
theorem RunsLine.mono {p p' : Parts} (hw : p.Within p') {component : Component} {line : CommandLine}
    {name : String} (h : RunsLine p component line name) : RunsLine p' component line name := by
  obtain ⟨container, task, found, launch, hcontainer, htask, hfound, hsame, hlaunch,
    hsame'⟩ := h
  exact ⟨container, task, found, launch, hcontainer, hw.tasks _ _ htask, hw.components _ _ hfound,
    hsame, hw.executors _ _ hlaunch, hsame'⟩

/-- The task with a name stands in a job for a task of the graph, whose component has a command
    line: it binds the inputs that the command line uses, and its component lists these and the
    declared outputs. -/
structure StepOf (s : Settings) (inputs : List String) (p : Parts) (names : Keyed String)
    (id : String) (task : GraphTask) (component : Component) (line : CommandLine)
    (name : String) : Prop where
  spec : task.reference.spec = some component
  commandLine : ∃ container, component.implementation = .container container ∧
    Binder.commandLine { id, component, arguments := task.arguments, pipelineParameters := inputs }
      container = .ok line
  named : Keyed.find? names id = some name
  emitted : ∃ entry found parameters artifacts caching,
    Keyed.find? p.tasks name = some (.step id entry parameters artifacts caching) ∧
    Keyed.find? p.components entry = some found ∧
    found.Lists line.valueInputs line.pathInputs component.outputNames ∧
    BoundBy component task.arguments (fun name => Binds (typeOf component name)) line.valueInputs
      parameters ∧
    BoundBy component task.arguments (fun _ => BindsFile s p names) line.pathInputs artifacts
  runs : RunsLine p component line name

namespace StepOf

variable {inputs : List String} {p p' : Parts} {names : Keyed String} {id name : String}
  {task : GraphTask} {component : Component} {line : CommandLine}

/-- Parts that are added change nothing for a task. -/
theorem mono (hw : p.Within p') (h : StepOf s inputs p names id task component line name) :
    StepOf s inputs p' names id task component line name := by
  obtain ⟨entry, found, parameters, artifacts, caching, htask, hfound, hlists, hparameters,
    hartifacts⟩ := h.emitted
  exact { h with
    emitted := ⟨entry, found, parameters, artifacts, caching, hw.tasks _ _ htask,
      hw.components _ _ hfound, hlists, hparameters,
      hartifacts.imp fun _ _ _ hbinds => hbinds.mono hw⟩
    runs := h.runs.mono hw }

/-- The declared outputs of a task are there. -/
theorem supplies (h : StepOf s inputs p names id task component line name) {output : String}
    (houtput : output ∈ component.outputNames) :
    Supplies p.components p.tasks (name, output) := by
  obtain ⟨entry, found, parameters, artifacts, caching, htask, hfound, hlists, -⟩ := h.emitted
  exact ⟨_, found, htask, hfound, (hlists.outputs output).mpr houtput⟩

end StepOf

/-! ### Bindings of a task -/

/-- Input parameters have no links. -/
theorem Binds.link? {type : Value} {argument : Argument} {source : ParameterSource}
    (h : Binds type argument source) : source.link? = none := by
  cases h with
  | constant | input => rfl

/-- Input artifacts are not bound to inputs of the pipeline. -/
theorem BindsFile.pipelineInput? {p : Parts} {names : Keyed String} {argument : Argument}
    {source : ArtifactSource} (h : BindsFile s p names argument source) :
    source.pipelineInput? = none := by
  cases h with
  | constant | input | output => rfl

/-- What is bound has an argument that counts. -/
theorem BoundBy.exists_argument {α : Type} {c : Component} {arguments : Keyed Argument}
    {holds : String → Argument → α → Prop} {names : List String} {bindings : Keyed α}
    (h : BoundBy c arguments holds names bindings) {binding : String × α}
    (hbinding : binding ∈ bindings) :
    ∃ name ∈ names, holds name (c.argumentFor arguments name) binding.2 := by
  obtain ⟨name, hname, hholds⟩ := exists_left_of_mem h hbinding
  exact ⟨name, hname, hholds.2⟩

/-- What input artifacts are bound to is there, when the outputs are that the arguments refer to. -/
theorem BoundBy.supplies {p : Parts} {c : Component} {arguments : Keyed Argument}
    {names : List String} {taskNames : Keyed String} {bindings : Keyed ArtifactSource}
    (h : BoundBy c arguments (fun _ => BindsFile s p taskNames) names bindings)
    (houtputs : ∀ entry ∈ arguments, ∀ source name, entry.2 = .taskOutput source →
      Keyed.find? taskNames source.task = some name →
      Supplies p.components p.tasks (name, source.output)) :
    ∀ artifact ∈ bindings, ∀ link, artifact.2.link? = some link →
      Supplies p.components p.tasks link := by
  intro artifact hmem link heq
  obtain ⟨n, -, hbind⟩ := h.exists_argument hmem
  generalize artifact.2 = source at hbind heq
  generalize hargument : c.argumentFor arguments n = argument at hbind
  -- What was made from a constant or an input has the one output of conversions.
  cases hbind with
  | constant text made =>
    obtain rfl := Option.some.inj heq
    exact made.supplies
  | input declared made =>
    obtain rfl := Option.some.inj heq
    exact made.supplies
  | @output source producer found =>
    obtain rfl := Option.some.inj heq
    obtain ⟨entry, hentry, heq'⟩ := argumentFor_mem hargument (fun _ he => nomatch he)
    exact houtputs entry hentry source producer heq' found

/-- A task with such bindings is proper. -/
theorem isProper_of_boundBy {p : Parts} {c : Component} {arguments : Keyed Argument}
    {types : String → Value} {taskNames : Keyed String} {names names' : List String}
    {task : JobTask}
    (hvalues : BoundBy c arguments (fun name => Binds (types name)) names task.parameters)
    (hfiles : BoundBy c arguments (fun _ => BindsFile s p taskNames) names' task.artifacts) :
    task.IsProper := by
  refine ⟨fun parameter hmem => ?_, fun artifact hmem => ?_⟩
  · obtain ⟨n, -, hbind⟩ := hvalues.exists_argument hmem
    exact hbind.link?
  · obtain ⟨n, -, hbind⟩ := hfiles.exists_argument hmem
    exact hbind.pipelineInput?

/-- The links of a proper task are those of its input artifacts. -/
theorem JobTask.IsProper.links {task : JobTask} (h : task.IsProper)
    {holds : String × String → Prop}
    (hartifacts : ∀ artifact ∈ task.artifacts, ∀ link, artifact.2.link? = some link →
      holds link) :
    ∀ link ∈ task.links, holds link := by
  intro link hlink
  rcases List.mem_append.mp hlink with hlink | hlink
  · obtain ⟨parameter, hmem, heq⟩ := List.mem_filterMap.mp hlink
    rw [h.parameters parameter hmem] at heq
    cases heq
  · obtain ⟨artifact, hmem, heq⟩ := List.mem_filterMap.mp hlink
    exact hartifacts artifact hmem link heq

/-- A task binds exactly the inputs that its component lists. -/
theorem ComponentEntry.Lists.fits {component : ComponentEntry} {values files outputs : List String}
    (h : component.Lists values files outputs) {components : Keyed ComponentEntry} {task : JobTask}
    (hfind : Keyed.find? components task.component = some component)
    (hvalues : Keyed.keys task.parameters = values) (hfiles : Keyed.keys task.artifacts = files) :
    Fits components task := by
  refine ⟨component, hfind, fun name => ?_, fun name => ?_⟩
  · rw [h.parameters, hvalues]
  · rw [h.artifacts, hfiles]

/-- A parameter is no output of a task. -/
theorem argumentFor_ne_output {c : Component} {arguments : Keyed Argument}
    {inputs : List String} {name : String} (h : name ∈ c.parameterInputs arguments inputs)
    (source : TaskOutput) : c.argumentFor arguments name ≠ .taskOutput source := by
  intro he
  unfold Component.argumentFor at he
  split at he
  next argument hfind =>
    have hparameter := isParameter_of_mem h hfind
    rw [he] at hparameter
    cases hparameter
  next => cases he

/-! ### One task -/

variable {d d' : Draft} {done : List String}

/-- **A compiled task** binds the inputs of its component, whoever the component was made for. -/
theorem addTask_spec (hsep : Separates P) {id : String} {task : GraphTask} {component : Component}
    {container : Container} {inputs : List String} (h : d.Sound P done [] []) (hid : id ∉ done)
    (hspec : task.reference.spec = some component)
    (hcontainer : component.implementation = .container container)
    (hinputs : ∀ entry ∈ task.arguments, ∀ input type, entry.2 = .graphInput input type →
      input ∈ inputs)
    (houtputs : ∀ entry ∈ task.arguments, ∀ source name, entry.2 = .taskOutput source →
      Keyed.find? d.taskNames source.task = some name →
      Supplies d.components.entries d.tasks.entries (name, source.output))
    (hyields : (addTask s
      { id, component, arguments := task.arguments, pipelineParameters := inputs }
      container d).Yields P d') :
    d'.Sound P (done ++ [id]) [] [] ∧ d.Grows d' ∧
      ∃ line name, StepOf s inputs d'.parts d'.taskNames id task component line name := by
  unfold addTask at hyields
  obtain ⟨line, hline, hyields⟩ := Recorded.yields_bind.mp hyields
  have hline := Recorded.yields_lift.mp hline
  obtain ⟨⟨executor, d₁⟩, hadd, hyields⟩ := Recorded.yields_bind.mp hyields
  obtain ⟨executors, rfl, hexecutor⟩ := addExecutor_spec hsep h.executors hadd
  obtain ⟨types, htypes, hyields⟩ := Recorded.yields_bind.mp hyields
  have htypes := typesOf_spec (Recorded.yields_lift.mp htypes)
  obtain ⟨⟨entry, d₂⟩, hadd', hyields⟩ := Recorded.yields_bind.mp hyields
  obtain ⟨components, rfl, hcomponent⟩ :=
    addComponent_spec hsep (d := { d with executors }) h.components hadd'
  obtain ⟨hparts, hgrows₂⟩ := h.withComponent hexecutor hcomponent rfl fun found hsame =>
    (lists_of_sameRecord hsame).2
  obtain ⟨found, hfound, hsame⟩ := hcomponent.found
  obtain ⟨hlists, hlabel⟩ := lists_of_sameRecord hsame
  rw [htypes, ← hlabel] at hsame
  rw [htypes, keys_declaredTypes] at hlists
  obtain ⟨launch, hlaunch, hsame'⟩ := hexecutor.found
  rw [← hlabel] at hlaunch
  -- what the command line reads by value is a parameter
  have huses := commandLine_uses (admits_isProperUse rfl rfl) hline
  obtain ⟨⟨parameters, d₃⟩, hparameters, hyields⟩ := Recorded.yields_bind.mp hyields
  obtain ⟨hsound₃, hgrows₃, hbinds, hrecorded⟩ := bindParameters_spec hparts
    (fun name hname => argumentFor_ne_output (huses.values name hname).2) hparameters
  obtain ⟨⟨artifacts, d₄⟩, hartifacts, hyields⟩ := Recorded.yields_bind.mp hyields
  obtain ⟨hsound₄, hgrows₄, hfiles⟩ := bindArtifacts_spec hsep hsound₃
    (fun name _ input declared hargument => by
      obtain ⟨given, hgiven, heq⟩ := argumentFor_mem hargument (fun _ he => nomatch he)
      exact hinputs given hgiven input declared heq) hartifacts
  obtain ⟨caching, -, hyields⟩ := Recorded.yields_bind.mp hyields
  obtain ⟨name, hname, hyields⟩ := Recorded.yields_bind.mp hyields
  have hname := fetch_eq_ok.mp (Recorded.yields_lift.mp hname)
  obtain ⟨u, -, hyields⟩ := Recorded.yields_bind.mp hyields
  obtain rfl := Recorded.yields_pure.mp hyields
  have hgrows : d.Grows d₄ := (hgrows₂.trans hgrows₃).trans hgrows₄
  have hfound₄ : Keyed.find? d₄.components.entries entry = some found :=
    (hgrows₃.trans hgrows₄).components.within _ _ hfound
  -- conversions supply their artifacts, and other tasks what they declare
  have hsupplied := hfiles.supplies fun given hgiven source producer heq hfind => by
    rw [hgrows.taskNames] at hfind
    exact (houtputs given hgiven source producer heq hfind).mono hgrows.components.within
      hgrows.tasks.within
  have hproper : (JobTask.step id entry parameters artifacts caching).IsProper :=
    isProper_of_boundBy hbinds hfiles
  have hlinks := hproper.links hsupplied
  have hfits : Fits d₄.components.entries (.step id entry parameters artifacts caching) :=
    hlists.fits hfound₄ hbinds.keys hfiles.keys
  have hbound : ∀ input ∈ parameters.filterMap (·.2.pipelineInput?) ++ [],
      input ∈ (JobTask.step id entry parameters artifacts caching).pipelineInputs := by
    rw [List.append_nil]
    exact fun _ hinput => hinput
  obtain ⟨hnew, hsound⟩ := hsound₄.define hname hid rfl hbound hfits hlinks hproper
    fun input hinput => hgrows₄.parameters input (hrecorded input hinput)
  have hdefine := Draft.grows_withTasks (d := d₄) (Registry.define_grows hnew
    (.step id entry parameters artifacts caching))
  refine ⟨hsound, hgrows.trans hdefine, line, name, hspec, ⟨container, hcontainer, hline⟩,
    hname, ⟨entry, found, parameters, artifacts, caching, Keyed.find?_put_self _ _ _, hfound₄,
      hlists, hbinds, hfiles.imp fun _ _ _ hbind => hbind.mono hdefine.parts⟩, ?_⟩
  exact ⟨container, _, found, launch, hcontainer, Keyed.find?_put_self _ _ _, hfound₄, hsame,
    (hgrows₃.trans hgrows₄).executors.within _ _ hlaunch, hsame'⟩

/-! ### One task after another -/

/-- What is known of the tasks that are compiled. -/
def AllEmitted (s : Settings) (inputs : List String) (g : Graph) (p : Parts)
    (names : Keyed String) (done : List String) : Prop :=
  ∀ id ∈ done, ∃ task component line name, g.task? id = some task ∧
    StepOf s inputs p names id task component line name

/-- Parts that are added change nothing for the tasks that are compiled. -/
theorem AllEmitted.mono {inputs : List String} {g : Graph} {p p' : Parts} {names : Keyed String}
    (hw : p.Within p') (h : AllEmitted s inputs g p names done) :
    AllEmitted s inputs g p' names done := by
  intro id hid
  obtain ⟨task, component, line, name, htask, hstep⟩ := h id hid
  exact ⟨task, component, line, name, htask, hstep.mono hw⟩

/-- A declared output of a task that is compiled is there. -/
theorem AllEmitted.supplies {inputs : List String} {g : Graph} {p : Parts} {names : Keyed String}
    (h : AllEmitted s inputs g p names done) {source : TaskOutput} (hdone : source.task ∈ done)
    {producer : GraphTask} {component : Component} (hproducer : g.task? source.task = some producer)
    (hspec : producer.reference.spec = some component)
    (houtput : source.output ∈ component.outputNames) {name : String}
    (hname : Keyed.find? names source.task = some name) :
    Supplies p.components p.tasks (name, source.output) := by
  obtain ⟨task, component', line, name', htask, hstep⟩ := h _ hdone
  obtain rfl := Option.some.inj (hproducer.symm.trans htask)
  obtain rfl := Option.some.inj (hspec.symm.trans hstep.spec)
  obtain rfl := Option.some.inj (hname.symm.trans hstep.named)
  exact hstep.supplies houtput

/-- A task that is compiled is a container. -/
theorem compileTask_spec (hsep : Separates P) {inputs : List String} {id : String}
    {task : GraphTask} (h : d.Sound P done [] []) (hid : id ∉ done)
    (hinputs : ∀ entry ∈ task.arguments, ∀ input type, entry.2 = .graphInput input type →
      input ∈ inputs)
    (houtputs : ∀ entry ∈ task.arguments, ∀ source name, entry.2 = .taskOutput source →
      Keyed.find? d.taskNames source.task = some name →
      Supplies d.components.entries d.tasks.entries (name, source.output))
    (hyields : (compileTask s inputs id task d).Yields P d') :
    d'.Sound P (done ++ [id]) [] [] ∧ d.Grows d' ∧
      ∃ component line name,
        StepOf s inputs d'.parts d'.taskNames id task component line name := by
  unfold compileTask at hyields
  -- A task without a component is refused, and so is one that is not a container.
  split at hyields
  next => exact absurd hyields Recorded.not_yields_throw
  next component hspec =>
    split at hyields
    next => exact absurd hyields Recorded.not_yields_throw
    next container hcontainer =>
      obtain ⟨hsound, hgrows, hstep⟩ :=
        addTask_spec hsep h hid hspec hcontainer hinputs houtputs hyields
      exact ⟨hsound, hgrows, component, hstep⟩

/-- **The next task of a graph**: what it gets from other tasks is there, because these come before
    it. -/
theorem compileTask_next (hsep : Separates P) {inputs : List String} {g : Graph} {id : String}
    {rest : List String} (hplanned : Planned g inputs (done ++ id :: rest))
    (h : d.Sound P done [] []) (hdone : AllEmitted s inputs g d.parts d.taskNames done)
    {task : GraphTask} (htask : g.task? id = some task)
    (hyields : (compileTask s inputs id task d).Yields P d') :
    d'.Sound P (done ++ [id]) [] [] ∧ d.Grows d' ∧
      AllEmitted s inputs g d'.parts d'.taskNames (done ++ [id]) := by
  have hid : id ∉ done := fun hmem =>
    (List.nodup_append.mp hplanned.nodup).2.2 id hmem id List.mem_cons_self rfl
  have houtputs : ∀ entry ∈ task.arguments, ∀ source name, entry.2 = .taskOutput source →
      Keyed.find? d.taskNames source.task = some name →
      Supplies d.components.entries d.tasks.entries (name, source.output) := by
    intro entry hentry source name heq hname
    obtain ⟨producer, component, hproducer, hspec, houtput⟩ :=
      hplanned.output htask hentry heq
    -- What the task gets from others has been compiled, since the order puts producers first.
    have hbefore := hplanned.before done id rest rfl task htask _ (mem_producers hentry heq)
    exact hdone.supplies hbefore hproducer hspec houtput hname
  obtain ⟨hsound, hgrows, component, line, name, hstep⟩ := compileTask_spec hsep h hid
    (fun entry hentry input type heq => hplanned.input htask hentry heq) houtputs hyields
  refine ⟨hsound, hgrows, fun x hx => ?_⟩
  rcases List.mem_append.mp hx with hx | hx
  · rw [hgrows.taskNames]
    exact hdone.mono hgrows.parts x hx
  · obtain rfl := List.mem_singleton.mp hx
    exact ⟨task, component, line, name, htask, hstep⟩

/-- The first of some tasks is compiled, its failures are attributed to it, and then the others. -/
theorem compileTasks_cons {inputs : List String} {g : Graph} {id : String} {task : GraphTask}
    (h : g.task? id = some task) (rest : List String) (d : Draft) :
    (compileTasks s g inputs (id :: rest) d).result =
      ((compileTask s inputs id task d).within id >>= compileTasks s g inputs rest).result := by
  rw [compileTasks, Recorded.result_bind_of_ok (a := task) (fetch_eq_ok.mpr h)]

/-- **The run over the tasks of a graph**: afterwards all of them are in the job.  The tasks `done`
    come before the tasks `order` in the order of the graph. -/
theorem compileTasks_spec (hsep : Separates P) {inputs : List String} {g : Graph}
    {order : List String} (hplanned : Planned g inputs (done ++ order))
    (h : d.Sound P done [] []) (hdone : AllEmitted s inputs g d.parts d.taskNames done)
    (hyields : (compileTasks s g inputs order d).Yields P d') :
    d'.Sound P (done ++ order) [] [] ∧ d.Grows d' ∧
      AllEmitted s inputs g d'.parts d'.taskNames (done ++ order) := by
  -- By induction on the order, with the tasks done so far; what is in the job stays in it.
  induction order generalizing d done with
  | nil =>
    obtain rfl := Recorded.yields_pure.mp hyields
    rw [List.append_nil]
    exact ⟨h, .refl d, hdone⟩
  | cons id rest ih =>
    unfold compileTasks at hyields
    obtain ⟨task, htask, hyields⟩ := Recorded.yields_bind.mp hyields
    have htask : g.task? id = some task := fetch_eq_ok.mp (Recorded.yields_lift.mp htask)
    obtain ⟨d₁, hd₁, hyields⟩ := Recorded.yields_bind.mp hyields
    obtain ⟨hsound₁, hgrows₁, hdone₁⟩ :=
      compileTask_next hsep hplanned h hdone htask (Recorded.yields_within.mp hd₁)
    have hsplit : done ++ id :: rest = done ++ [id] ++ rest := by simp
    rw [hsplit] at hplanned ⊢
    obtain ⟨hsound, hgrows, hall⟩ := ih hplanned hsound₁ hdone₁ hyields
    exact ⟨hsound, hgrows₁.trans hgrows, hall⟩

/-! ### Graphs and pipelines -/

/-- The tasks of a draft get their names from its allocator. -/
theorem reserveAll_eq (d : Draft) (order : List String) :
    d.reserveAll order = (d.tasks.names.reserveAll d.taskNames order).map fun given =>
      { d with tasks := { d.tasks with names := given.2 }, taskNames := given.1 } := by
  induction order generalizing d with
  | nil => rfl
  | cons id rest ih =>
    unfold Draft.reserveAll at ih ⊢
    rw [List.foldlM_cons, NameAllocator.reserveAll, Registry.reserve]
    cases d.tasks.names.reserve id with
    | error e => rfl
    | ok given => exact ih _

/-- **The draft with which a graph begins** has the names of its tasks, and nothing else. -/
theorem start_spec {order : List String} (hok : (Draft.empty s.policy).reserveAll order = .ok d) :
    d.Sound P [] [] [] ∧ d.taskNames = emittedNames s order := by
  rw [reserveAll_eq] at hok
  obtain ⟨⟨names, a⟩, hgiven, rfl⟩ := map_eq_ok.mp hok
  obtain ⟨hreserved, -⟩ := reserveAll_spec (reserved_empty s) hgiven
  have hemitted : emittedNames s order = names := by
    unfold emittedNames
    rw [show ({ policy := s.policy } : NameAllocator).reserveAll [] order = .ok (names, a)
      from hgiven]
  -- nothing was made yet, so that only the names of the tasks need a proof
  refine ⟨?_, hemitted.symm⟩
  exact {
    executors := Registry.sound_empty (policy_delimiter_legal s)
    components := Registry.sound_empty (policy_delimiter_legal s)
    executorsComplete := fun _ hentry => nomatch hentry
    componentsComplete := fun _ hentry => nomatch hentry
    tasks := hreserved.sound rfl
    labelled := fun _ hentry => nomatch hentry
    executorsUsed := fun _ hname => nomatch hname
    componentsUsed := fun _ hname => nomatch hname
    fits := fun _ hentry => nomatch hentry
    supplied := chained_nil _
    proper := fun _ hentry => nomatch hentry
    reserved := fun id name hname => ⟨hreserved.used id name hname, hreserved.not_kept name⟩
    distinct := hreserved.distinct
    defined := fun _ hname => nomatch hname
    noArtifacts := rfl
    inputsUsed := fun _ hname => nomatch hname
    inputsRecorded := fun _ hentry => nomatch hentry }

/-- What is left of the compilation of a graph. -/
structure GraphCompiled (P : String → Prop) (s : Settings) (c : Component) (g : Graph)
    (order : List String) (root : Root) (d : Draft) : Prop where
  planned : Planned g c.inputNames order
  sound : d.Sound P order [] []
  taskNames : d.taskNames = emittedNames s order
  emitted : AllEmitted s c.inputNames g d.parts d.taskNames order
  tasks : root.tasks = d.tasks.entries
  parameters : root.parameters = declaredTypes c d.parameters
  artifacts : root.artifacts = []
  outputs : ∀ output ∈ root.outputs, Supplies d.components.entries d.tasks.entries output.2

/-- Every task of the graph has been compiled. -/
theorem GraphCompiled.stepAt {c : Component} {g : Graph} {order : List String} {root : Root}
    {d : Draft} (h : GraphCompiled P s c g order root d) {id : String} {task : GraphTask}
    (htask : g.task? id = some task) : ∃ component line name,
    StepOf s c.inputNames d.parts d.taskNames id task component line name := by
  have hid : id ∈ order := (h.planned.mem_iff id).mpr (Keyed.mem_keys_of_find? htask)
  obtain ⟨task', component, line, name, htask', hstep⟩ := h.emitted id hid
  obtain rfl := Option.some.inj (htask.symm.trans htask')
  exact ⟨component, line, name, hstep⟩

/-- The outputs of a graph come from tasks that declare them. -/
theorem outputsOf_supplied {inputs : List String} {g : Graph} {order : List String}
    (hplanned : Planned g inputs order)
    (hemitted : AllEmitted s inputs g d.parts d.taskNames order)
    {sources : List (String × TaskOutput)}
    (hsources : ∀ source ∈ sources, source ∈ g.outputValues)
    {outputs : Keyed (String × String)} (h : outputsOf d sources = .ok outputs) :
    ∀ output ∈ outputs, Supplies d.components.entries d.tasks.entries output.2 := by
  -- By induction on the outputs; the task of each is in the table, with a component that declares
  -- the output.
  induction sources generalizing outputs with
  | nil =>
    obtain rfl := Except.ok.inj h
    exact fun _ houtput => nomatch houtput
  | cons entry rest ih =>
    obtain ⟨name, source⟩ := entry
    unfold outputsOf at h
    obtain ⟨task, htask, h⟩ := bind_eq_ok.mp h
    have htask := fetch_eq_ok.mp htask
    obtain ⟨others, hothers, h⟩ := bind_eq_ok.mp h
    obtain rfl := pure_eq_ok.mp h
    intro output houtput
    rcases List.mem_cons.mp houtput with rfl | houtput
    · have hbroken := hplanned.outputs _ (hsources _ List.mem_cons_self)
      obtain ⟨producer, component, hproducer, hspec, hmem⟩ := hplanned.declares hbroken
      have hdone : source.task ∈ order :=
        (hplanned.mem_iff _).mpr (Keyed.mem_keys_of_find? hproducer)
      exact hemitted.supplies hdone hproducer hspec hmem htask
    · exact ih (fun x hx => hsources x (List.mem_cons_of_mem _ hx)) hothers output houtput

/-- **A graph** is compiled task by task. -/
theorem compileGraph_spec (hsep : Separates P) {c : Component} {g : Graph} {root : Root}
    (hyields : (compileGraph s c g).Yields P (root, d)) :
    ∃ order, g.order c.inputNames = .ok order ∧
      GraphCompiled P s c g order root d := by
  unfold compileGraph at hyields
  obtain ⟨order, horder, hyields⟩ := Recorded.yields_bind.mp hyields
  have horder := Recorded.yields_lift.mp horder
  have hplanned : Planned g c.inputNames ([] ++ order) := order_planned horder
  -- only a graph with tasks asks for the length of names
  dsimp only at hyields
  have hyields := hyields.of_unless
  obtain ⟨start, hstart, hyields⟩ := Recorded.yields_bind.mp hyields
  obtain ⟨hsound₀, hnames₀⟩ := start_spec (P := P) (Recorded.yields_lift.mp hstart)
  obtain ⟨d', hrun, hyields⟩ := Recorded.yields_bind.mp hyields
  obtain ⟨hsound, hgrows, hemitted⟩ :=
    compileTasks_spec hsep hplanned hsound₀ (fun _ hid => nomatch hid) hrun
  obtain ⟨parameters, hparameters, hyields⟩ := Recorded.yields_bind.mp hyields
  obtain ⟨outputs, houtputs, hyields⟩ := Recorded.yields_bind.mp hyields
  obtain ⟨rfl, rfl⟩ := Recorded.yields_pure_pair hyields
  exact ⟨order, horder, hplanned, hsound, hgrows.taskNames.trans hnames₀, hemitted, rfl,
    typesOf_spec (Recorded.yields_lift.mp hparameters), hsound.noArtifacts,
    outputsOf_supplied hplanned hemitted (fun _ h => h) (Recorded.yields_lift.mp houtputs)⟩

/-- The values of inputs of a pipeline under their names. -/
def rootValues (c : Component) (texts : Keyed String) (names : List String) : Keyed Constant :=
  names.map fun name =>
    (name, (Constant.readOr (c.rootTextFor texts name) (PrimitiveType.ofType (typeOf c name))).1)

/-- These are the texts that count for the inputs, as constants of their types. -/
theorem rootConstants_spec {c : Component} {texts : Keyed String} {names : List String}
    {constants : Keyed Constant}
    (hyields : (rootConstants c texts (declaredTypes c names)).Yields P constants) :
    constants = rootValues c texts names := by
  induction names generalizing constants with
  | nil => exact (Recorded.yields_pure.mp hyields).symm
  | cons name rest ih =>
    rw [declaredTypes, List.map_cons] at hyields
    unfold rootConstants at hyields
    obtain ⟨input, hinput, hyields⟩ := Recorded.yields_bind.mp hyields
    obtain ⟨text, htext, hyields⟩ := Recorded.yields_bind.mp hyields
    have hinput := fetchInput_eq_ok.mp (Recorded.yields_lift.mp hinput)
    obtain rfl := rootText_spec hinput htext
    -- a warning may come in between
    dsimp only at hyields
    have hyields := hyields.of_when
    obtain ⟨others, hothers, hyields⟩ := Recorded.yields_bind.mp hyields
    obtain rfl := Recorded.yields_pure.mp hyields
    rw [ih hothers]
    rfl

/-- The names of inputs with their values. -/
theorem keys_rootValues (c : Component) (texts : Keyed String) (names : List String) :
    Keyed.keys (rootValues c texts names) = names := by
  simp [Keyed.keys, rootValues, Function.comp_def]

/-- What is left of the compilation of a pipeline: the graph it is, and what was made of it. -/
structure PipelineCompiled (P : String → Prop) (s : Settings) (c : Component)
    (arguments : Keyed Value) (g : Graph) (order : List String) (job : Job) (d : Draft) :
    Prop where
  graph : asGraph c = .ok g
  ordered : g.order c.inputNames = .ok order
  compiled : GraphCompiled P s c g order job.root d
  executors : job.executors = d.executors.entries
  components : job.components = d.components.entries
  parameters : job.parameters = rootValues c (c.givenTexts arguments) d.parameters

/-- The parts of a job are those of the draft. -/
theorem PipelineCompiled.parts {c : Component} {arguments : Keyed Value} {g : Graph}
    {order : List String} {job : Job} (h : PipelineCompiled P s c arguments g order job d) :
    job.parts = d.parts := by
  rw [Job.parts, Draft.parts, h.executors, h.components, h.compiled.tasks]

/-- Every task of a pipeline has been compiled, and the job has what was made of it. -/
theorem PipelineCompiled.stepAt {c : Component} {arguments : Keyed Value} {g : Graph}
    {order : List String} {job : Job} {d : Draft}
    (h : PipelineCompiled P s c arguments g order job d) {id : String} {task : GraphTask}
    (htask : g.task? id = some task) : ∃ component line name,
    StepOf s c.inputNames job.parts (emittedNames s order) id task component line name := by
  rw [h.parts, ← h.compiled.taskNames]
  exact h.compiled.stepAt htask

/-- The compilation of a pipeline is that of its graph. -/
theorem compile_run {context : Context} {c : Component} {arguments : Keyed Value}
    {outputDirectory contextName : String} {job : Job}
    (hyields : (compile context c arguments outputDirectory contextName).Yields P job) :
    ∃ s g d, context.settings = .ok s ∧ asGraph c = .ok g ∧
      (compileGraph s c g).Yields P (job.root, d) ∧ job.executors = d.executors.entries ∧
      job.components = d.components.entries ∧
      (rootConstants c (c.givenTexts arguments) job.root.parameters).Yields P job.parameters := by
  -- The steps of the compilation one by one, of which the graph and the constants matter here.
  unfold compile at hyields
  obtain ⟨s, hs, hyields⟩ := Recorded.yields_bind.mp hyields
  obtain ⟨limit, -, hyields⟩ := Recorded.yields_bind.mp hyields
  obtain ⟨g, hg, hyields⟩ := Recorded.yields_bind.mp hyields
  obtain ⟨⟨root, d⟩, hgraph, hyields⟩ := Recorded.yields_bind.mp hyields
  obtain ⟨limit', -, hyields⟩ := Recorded.yields_bind.mp hyields
  obtain ⟨sdkVersion, -, hyields⟩ := Recorded.yields_bind.mp hyields
  obtain ⟨schemaVersion, -, hyields⟩ := Recorded.yields_bind.mp hyields
  obtain ⟨texts, htexts, hyields⟩ := Recorded.yields_bind.mp hyields
  obtain ⟨rfl, -⟩ := rootTexts_spec htexts
  obtain ⟨parameters, hparameters, hyields⟩ := Recorded.yields_bind.mp hyields
  obtain ⟨u, -, hyields⟩ := Recorded.yields_bind.mp hyields
  obtain rfl := Recorded.yields_pure.mp hyields
  exact ⟨s, g, d, Recorded.yields_lift.mp hs, Recorded.yields_lift.mp hg, hgraph, rfl, rfl,
    hparameters⟩

/-- **The compilation of a pipeline.** -/
theorem compile_spec (hsep : Separates P) {context : Context} {c : Component}
    {arguments : Keyed Value} {outputDirectory contextName : String} {job : Job}
    (hyields : (compile context c arguments outputDirectory contextName).Yields P job) :
    ∃ s g order d, context.settings = .ok s ∧
      PipelineCompiled P s c arguments g order job d := by
  obtain ⟨s, g, d, hs, hg, hgraph, hexecutors, hcomponents, hparameters⟩ := compile_run hyields
  obtain ⟨order, horder, hcompiled⟩ := compileGraph_spec hsep hgraph
  rw [hcompiled.parameters] at hparameters
  exact ⟨s, g, order, d, hs, hg, horder, hcompiled, hexecutors, hcomponents,
    rootConstants_spec hparameters⟩

end PipelineCompiler.Vertex
