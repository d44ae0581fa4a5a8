import PipelineCompiler.Proofs.Naming.Registry
import PipelineCompiler.Proofs.Vertex.Closure

namespace PipelineCompiler.Vertex

/-!
# Tasks of a job, one by one

A job has one task for each task of its graph.  All its other tasks make artifacts, each of them of
a text or of an input that is needed as a file, and none of what another one is made of.

* `Draft.Thrifty`, `compileTasks_thrifty` — no task makes an artifact in vain or twice, as long as
  the tasks of a graph are compiled;
* `NeedsArtifact` — a file is needed that is made of a text or of an input;
* `Accounts`, `PipelineCompiled.accounts` — the tasks of a job match those of its graph;
* `compile_thrifty`, `job_conversions` — that is so in every job.
-/

variable {P : String → Prop} {s : Settings} {c : Component}

/-! ### What a run leaves -/

/-- The tasks of a draft after some files were bound: the new tasks are conversions with the caching
    of the configuration, and what they make is among the things that were bound. -/
structure Converted (P : String → Prop) (s : Settings) (tasks tasks' : Registry JobTask)
    (bound : List ArtifactSource) : Prop where
  sound : tasks'.Sound P JobTask.toValue
  keys : tasks'.KeysDistinct
  entries : ∀ entry ∈ tasks'.entries, entry ∈ tasks.entries ∨ ∃ component source cached,
    entry.2 = .conversion component source cached ∧ caching s = .ok cached
  kept : ∀ name ∈ tasks'.names.keptNames, name ∈ tasks.names.keptNames ∨
    .taskOutput name conversionOutput ∈ bound

variable {d d' : Draft} {tasks tasks₁ tasks₂ : Registry JobTask}

/-- Nothing is converted. -/
theorem Converted.refl (hsound : tasks.Sound P JobTask.toValue) (hkeys : tasks.KeysDistinct)
    (bound : List ArtifactSource) : Converted P s tasks tasks bound :=
  ⟨hsound, hkeys, fun _ h => .inl h, fun _ h => .inl h⟩

/-- Files are bound one after another. -/
theorem Converted.cons {artifact : ArtifactSource} {bound : List ArtifactSource}
    (h : Converted P s tasks tasks₁ [artifact]) (h' : Converted P s tasks₁ tasks₂ bound) :
    Converted P s tasks tasks₂ (artifact :: bound) where
  sound := h'.sound
  keys := h'.keys
  entries := by
    intro entry hentry
    rcases h'.entries entry hentry with hentry | hnew
    · exact h.entries entry hentry
    · exact .inr hnew
  kept := by
    intro name hname
    rcases h'.kept name hname with hname | hbound
    · refine (h.kept name hname).imp_right fun hmem => ?_
      rw [List.mem_singleton.mp hmem]
      exact List.mem_cons_self
    · exact .inr (List.mem_cons_of_mem _ hbound)

/-- An executor leaves the tasks alone. -/
theorem addExecutor_tasks {stem : Except Failure String} {launch : Launch} {name : String}
    (hyields : (d.addExecutor s stem launch).Yields P (name, d')) : d'.tasks = d.tasks := by
  unfold Draft.addExecutor at hyields
  obtain ⟨⟨given, isNew, executors⟩, -, hyields⟩ := Recorded.yields_bind.mp hyields
  obtain ⟨-, rfl⟩ := Recorded.yields_pure_pair hyields
  rfl

/-- A component leaves the tasks alone. -/
theorem addComponent_tasks {stem : Except Failure String} {place : String} {entry : ComponentEntry}
    {name : String} (hyields : (d.addComponent s stem place entry).Yields P (name, d')) :
    d'.tasks = d.tasks := by
  unfold Draft.addComponent at hyields
  obtain ⟨⟨given, isNew, components⟩, -, hyields⟩ := Recorded.yields_bind.mp hyields
  dsimp only at hyields
  obtain ⟨-, rfl⟩ := Recorded.yields_pure_pair hyields.of_when
  rfl

/-- The bindings of input parameters leave the tasks alone. -/
theorem bindParameters_tasks {b : Binder} {names : List String} {bindings : Keyed ParameterSource}
    (hyields : (b.bindParameters names d).Yields P (bindings, d')) : d'.tasks = d.tasks := by
  -- By induction on the names.  Binding a parameter at most notes an input or a warning.
  induction names generalizing d bindings with
  | nil =>
    obtain ⟨-, rfl⟩ := Recorded.yields_pure_pair hyields
    rfl
  | cons name rest ih =>
    unfold Binder.bindParameters at hyields
    obtain ⟨input, -, hyields⟩ := Recorded.yields_bind.mp hyields
    obtain ⟨argument, -, hyields⟩ := Recorded.yields_bind.mp hyields
    obtain ⟨⟨source, d₁⟩, hsource, hyields⟩ := Recorded.yields_bind.mp hyields
    obtain ⟨⟨others, d₂⟩, hrest, hyields⟩ := Recorded.yields_bind.mp hyields
    obtain ⟨-, rfl⟩ := Recorded.yields_pure_pair hyields
    refine (ih hrest).trans ?_
    cases argument with
    | literal text =>
      unfold Draft.parameterFor at hsource
      dsimp only at hsource
      obtain ⟨-, rfl⟩ := Recorded.yields_pure_pair hsource.of_when
      rfl
    | graphInput input declared =>
      obtain ⟨-, rfl⟩ := Recorded.yields_pure_pair hsource
      rfl
    | taskOutput output =>
      unfold Draft.parameterFor at hsource
      obtain ⟨task, -, hsource⟩ := Recorded.yields_bind.mp hsource
      obtain ⟨-, rfl⟩ := Recorded.yields_pure_pair hsource
      rfl

/-- **A conversion** is interned. -/
theorem convert_converted (hsound : d.tasks.Sound P JobTask.toValue) (hkeys : d.tasks.KeysDistinct)
    {source : ParameterSource} {stem place : String} {artifact : ArtifactSource}
    (hyields : (d.convert s source stem place).Yields P (artifact, d')) :
    Converted P s d.tasks d'.tasks [artifact] := by
  unfold Draft.convert at hyields
  obtain ⟨launch, -, hyields⟩ := Recorded.yields_bind.mp hyields
  obtain ⟨⟨executor, d₁⟩, hadd, hyields⟩ := Recorded.yields_bind.mp hyields
  obtain ⟨⟨component, d₂⟩, hadd', hyields⟩ := Recorded.yields_bind.mp hyields
  obtain ⟨cached, hcaching, hyields⟩ := Recorded.yields_bind.mp hyields
  obtain ⟨⟨name, isNew, tasks⟩, hintern, hyields⟩ := Recorded.yields_bind.mp hyields
  dsimp only at hyields
  obtain ⟨rfl, rfl⟩ := Recorded.yields_pure_pair hyields.of_when
  -- Its component is added to other tables, and the task itself is interned.
  have htasks : d₂.tasks = d.tasks :=
    (addComponent_tasks hadd').trans (addExecutor_tasks hadd)
  rw [htasks] at hintern
  have hinterned : Registry.Interned P JobTask.toValue d.tasks _ name tasks := ⟨_, _, hintern⟩
  have hstored := hinterned.stored hsound
  refine ⟨hstored.sound, hinterned.keysDistinct hsound hkeys, fun entry hentry => ?_,
    fun n hn => ?_⟩
  · rcases hstored.appended with ⟨heq, -⟩ | ⟨-, heq, -⟩
    · exact .inl (heq ▸ hentry)
    · rw [show ({ d₂ with tasks } : Draft).tasks.entries = _ from heq] at hentry
      rcases List.mem_append.mp hentry with hentry | hentry
      · exact .inl hentry
      · obtain rfl := List.mem_singleton.mp hentry
        exact .inr ⟨component, source, cached, rfl, Recorded.yields_lift.mp hcaching⟩
  · change n ∈ tasks.names.keptNames at hn
    rcases hstored.appended with ⟨-, heq⟩ | ⟨-, -, heq⟩
    · exact .inl (heq ▸ hn)
    · rw [heq] at hn
      rcases List.mem_append.mp hn with hn | hn
      · exact .inl hn
      · obtain rfl := List.mem_singleton.mp hn
        exact .inr List.mem_cons_self

/-- What an input artifact is bound to. -/
theorem artifactFor_converted (hsound : d.tasks.Sound P JobTask.toValue)
    (hkeys : d.tasks.KeysDistinct) {parameters : List String} {place : String}
    {argument : Argument} {artifact : ArtifactSource}
    (hyields : (d.artifactFor s parameters place argument).Yields P (artifact, d')) :
    Converted P s d.tasks d'.tasks [artifact] := by
  -- A constant and an input given by value are converted; a file and an output add no task.
  cases argument with
  | literal text => exact convert_converted hsound hkeys hyields
  | graphInput input declared =>
    unfold Draft.artifactFor at hyields
    dsimp only at hyields
    split at hyields
    next =>
      exact convert_converted (d := { d with parameters := insertNew d.parameters input }) hsound
        hkeys hyields
    next =>
      obtain ⟨rfl, rfl⟩ := Recorded.yields_pure_pair hyields
      exact .refl hsound hkeys _
  | taskOutput output =>
    unfold Draft.artifactFor at hyields
    obtain ⟨task, -, hyields⟩ := Recorded.yields_bind.mp hyields
    obtain ⟨rfl, rfl⟩ := Recorded.yields_pure_pair hyields
    exact .refl hsound hkeys _

/-- **The bindings of input artifacts.** -/
theorem bindArtifacts_converted {b : Binder} {names : List String} {bindings : Keyed ArtifactSource}
    (hsound : d.tasks.Sound P JobTask.toValue) (hkeys : d.tasks.KeysDistinct)
    (hyields : (b.bindArtifacts s names d).Yields P (bindings, d')) :
    Converted P s d.tasks d'.tasks (Keyed.values bindings) := by
  induction names generalizing d bindings with
  | nil =>
    obtain ⟨rfl, rfl⟩ := Recorded.yields_pure_pair hyields
    exact .refl hsound hkeys _
  | cons name rest ih =>
    unfold Binder.bindArtifacts at hyields
    obtain ⟨input, -, hyields⟩ := Recorded.yields_bind.mp hyields
    obtain ⟨argument, -, hyields⟩ := Recorded.yields_bind.mp hyields
    obtain ⟨⟨artifact, d₁⟩, hartifact, hyields⟩ := Recorded.yields_bind.mp hyields
    obtain ⟨⟨others, d₂⟩, hrest, hyields⟩ := Recorded.yields_bind.mp hyields
    obtain ⟨rfl, rfl⟩ := Recorded.yields_pure_pair hyields
    have hfirst := artifactFor_converted hsound hkeys hartifact
    exact hfirst.cons (ih hfirst.sound hfirst.keys hrest)

/-- A task that is added. -/
theorem addTask_converted (hsound : d.tasks.Sound P JobTask.toValue) (hkeys : d.tasks.KeysDistinct)
    {b : Binder} {container : Container} (hyields : (addTask s b container d).Yields P d') :
    ∃ tasks name component parameters artifacts caching,
      Converted P s d.tasks tasks (Keyed.values artifacts) ∧
      Keyed.find? d'.taskNames b.id = some name ∧
      d'.tasks = tasks.define name (.step b.id component parameters artifacts caching) := by
  unfold addTask at hyields
  obtain ⟨line, -, hyields⟩ := Recorded.yields_bind.mp hyields
  obtain ⟨⟨executor, d₁⟩, hadd, hyields⟩ := Recorded.yields_bind.mp hyields
  obtain ⟨types, -, hyields⟩ := Recorded.yields_bind.mp hyields
  obtain ⟨⟨component, d₂⟩, hadd', hyields⟩ := Recorded.yields_bind.mp hyields
  obtain ⟨⟨parameters, d₃⟩, hparameters, hyields⟩ := Recorded.yields_bind.mp hyields
  obtain ⟨⟨artifacts, d₄⟩, hartifacts, hyields⟩ := Recorded.yields_bind.mp hyields
  obtain ⟨caching, -, hyields⟩ := Recorded.yields_bind.mp hyields
  obtain ⟨name, hname, hyields⟩ := Recorded.yields_bind.mp hyields
  obtain ⟨u, -, hyields⟩ := Recorded.yields_bind.mp hyields
  obtain rfl := Recorded.yields_pure.mp hyields
  -- Executor, component and parameters leave the tasks as they are; only artifacts add conversions.
  have htasks : d₃.tasks = d.tasks := ((bindParameters_tasks hparameters).trans
    (addComponent_tasks hadd')).trans (addExecutor_tasks hadd)
  have hconverted := bindArtifacts_converted (htasks ▸ hsound) (htasks ▸ hkeys) hartifacts
  rw [htasks] at hconverted
  exact ⟨d₄.tasks, name, component, parameters, artifacts, caching, hconverted,
    fetch_eq_ok.mp (Recorded.yields_lift.mp hname), rfl⟩

/-- The tasks are those of the graph that are compiled, and conversions with the caching of the
    configuration.  These have different records, and the artifact that each of them makes is used
    by a task of the graph. -/
structure Draft.Thrifty (s : Settings) (d : Draft) (done : List String) : Prop where
  keys : d.tasks.KeysDistinct
  entries : ∀ entry ∈ d.tasks.entries,
    (∃ id ∈ done, Keyed.find? d.taskNames id = some entry.1) ∨ ∃ component source cached,
      entry.2 = .conversion component source cached ∧ caching s = .ok cached
  used : ∀ name ∈ d.tasks.names.keptNames, ∃ id ∈ done, ∃ user step input,
    Keyed.find? d.taskNames id = some user ∧ Keyed.find? d.tasks.entries user = some step ∧
    (input, ArtifactSource.taskOutput name conversionOutput) ∈ step.artifacts

variable {done : List String}

/-- **A task** uses whatever was converted for it. -/
theorem compileTask_thrifty {inputs : List String} {id : String} {task : GraphTask}
    (hsound : d.tasks.Sound P JobTask.toValue) (hgrows : d.Grows d') (hthrifty : d.Thrifty s done)
    (hyields : (compileTask s inputs id task d).Yields P d') : d'.Thrifty s (done ++ [id]) := by
  unfold compileTask at hyields
  split at hyields
  next => exact absurd hyields Recorded.not_yields_throw
  next component hspec =>
    split at hyields
    next => exact absurd hyields Recorded.not_yields_throw
    next container hcontainer =>
      obtain ⟨tasks, name, entry, parameters, artifacts, cached, hconverted, hname, htasks⟩ :=
        addTask_converted hsound hthrifty.keys hyields
      refine ⟨?_, fun made hmade => ?_, fun n hn => ?_⟩
      · rw [htasks]
        exact hconverted.keys
      · rw [htasks] at hmade
        rcases Keyed.mem_put hmade with hmade | rfl
        · rcases hconverted.entries made hmade with hold | hnew
          · refine (hthrifty.entries made hold).imp_left ?_
            rintro ⟨other, hother, hfind⟩
            exact ⟨other, List.mem_append_left _ hother, hgrows.taskNames ▸ hfind⟩
          · exact .inr hnew
        · exact .inl ⟨id, List.mem_append_right _ List.mem_cons_self, hname⟩
      · rw [htasks] at hn
        -- what was converted earlier is used by the tasks before
        rcases hconverted.kept n hn with hold | hbound
        · obtain ⟨other, hother, user, step, input, huser, hstep, hmem⟩ := hthrifty.used n hold
          exact ⟨other, List.mem_append_left _ hother, user, step, input,
            hgrows.taskNames ▸ huser, hgrows.tasks.within _ _ hstep, hmem⟩
        · obtain ⟨⟨input, source⟩, hmem, rfl⟩ := List.mem_map.mp hbound
          refine ⟨id, List.mem_append_right _ List.mem_cons_self, name,
            .step id entry parameters artifacts cached, input, hname, ?_, hmem⟩
          rw [htasks]
          exact Keyed.find?_put_self _ _ _

/-- **No task makes an artifact in vain or twice**, as long as the tasks of a graph are compiled. -/
theorem compileTasks_thrifty (hsep : Separates P) {inputs : List String} {g : Graph}
    {order : List String} (hplanned : Planned g inputs (done ++ order))
    (h : d.Sound P done [] []) (hdone : AllEmitted s inputs g d.parts d.taskNames done)
    (hthrifty : d.Thrifty s done) (hyields : (compileTasks s g inputs order d).Yields P d') :
    d'.Thrifty s (done ++ order) := by
  -- By induction on the order; names that are kept belong to conversions with a user.
  induction order generalizing d done with
  | nil =>
    obtain rfl := Recorded.yields_pure.mp hyields
    rwa [List.append_nil]
  | cons id rest ih =>
    unfold compileTasks at hyields
    obtain ⟨task, htask, hyields⟩ := Recorded.yields_bind.mp hyields
    have htask : g.task? id = some task := fetch_eq_ok.mp (Recorded.yields_lift.mp htask)
    obtain ⟨d₁, hd₁, hyields⟩ := Recorded.yields_bind.mp hyields
    have hd₁ := Recorded.yields_within.mp hd₁
    obtain ⟨hsound₁, hgrows₁, hdone₁⟩ :=
      compileTask_next hsep hplanned h hdone htask hd₁
    rw [show done ++ id :: rest = done ++ [id] ++ rest by simp] at hplanned ⊢
    exact ih hplanned hsound₁ hdone₁ (compileTask_thrifty h.tasks hgrows₁ hthrifty hd₁)
      hyields

/-- **No task of a job makes an artifact in vain or twice.** -/
theorem compileGraph_thrifty (hsep : Separates P) {g : Graph} {root : Root} {order : List String}
    (horder : g.order c.inputNames = .ok order)
    (hyields : (compileGraph s c g).Yields P (root, d)) : d.Thrifty s order := by
  unfold compileGraph at hyields
  obtain ⟨order', horder', hyields⟩ := Recorded.yields_bind.mp hyields
  obtain rfl := Except.ok.inj (horder.symm.trans (Recorded.yields_lift.mp horder'))
  have hplanned : Planned g c.inputNames ([] ++ order) := order_planned horder
  -- only a graph with tasks asks for the length of names
  dsimp only at hyields
  have hyields := hyields.of_unless
  obtain ⟨start, hstart, hyields⟩ := Recorded.yields_bind.mp hyields
  have hstart := Recorded.yields_lift.mp hstart
  obtain ⟨d', hrun, hyields⟩ := Recorded.yields_bind.mp hyields
  obtain ⟨parameters, -, hyields⟩ := Recorded.yields_bind.mp hyields
  obtain ⟨outputs, -, hyields⟩ := Recorded.yields_bind.mp hyields
  obtain ⟨-, rfl⟩ := Recorded.yields_pure_pair hyields
  obtain ⟨hsound, -⟩ := start_spec (P := P) hstart
  have hempty : start.Thrifty s [] := by
    rw [reserveAll_eq] at hstart
    obtain ⟨⟨names, a⟩, hgiven, rfl⟩ := map_eq_ok.mp hstart
    obtain ⟨hreserved, -⟩ := reserveAll_spec (reserved_empty s) hgiven
    refine ⟨?_, (fun _ hentry => nomatch hentry), fun name hname => ?_⟩
    · show (Keyed.keys a.byKey).Nodup
      rw [hreserved.kept]
      exact List.nodup_nil
    · exact absurd hname (hreserved.not_kept name)
  exact compileTasks_thrifty hsep hplanned hsound (fun _ hid => nomatch hid) hempty hrun

/-! ### Tasks of a job and tasks of a graph -/

/-- What an artifact is made of that an argument stands for.  Outputs of tasks are artifacts. -/
def madeOf? : Argument → Option ParameterSource
  | .literal text => some (.constant (.string text))
  | .graphInput input _ => some (.pipelineInput input)
  | .taskOutput _ => none

/-- An input of a task needs an artifact that is made of a text or of an input of the pipeline: the
    command line of the task uses the input as a file, and its argument is no output of a task. -/
def NeedsArtifact (c : Component) (g : Graph) (id input : String) (source : ParameterSource) :
    Prop :=
  ∃ task component container line, g.task? id = some task ∧
    task.reference.spec = some component ∧ component.implementation = .container container ∧
    Binder.commandLine
      { id, component, arguments := task.arguments, pipelineParameters := c.inputNames } container
        = .ok line ∧
    input ∈ line.pathInputs ∧ madeOf? (component.argumentFor task.arguments input) = some source

/-- The tasks of a job match those of its graph, which have some names. -/
structure Accounts (c : Component) (g : Graph) (names : Keyed String) (job : Job) : Prop where
  /-- No name is there twice, and no two tasks of the graph have one name. -/
  nodup : (Keyed.keys job.root.tasks).Nodup
  distinct : ∀ id id' name, Keyed.find? names id = some name →
    Keyed.find? names id' = some name → id = id'
  /-- Every task of the graph has a task, and all others are conversions. -/
  steps : ∀ id task, g.task? id = some task → ∃ name component parameters artifacts cached,
    Keyed.find? names id = some name ∧
    Keyed.find? job.root.tasks name = some (.step id component parameters artifacts cached)
  others : ∀ name made, Keyed.find? job.root.tasks name = some made →
    (∃ id task, g.task? id = some task ∧ Keyed.find? names id = some name) ∨
      ∃ component source cached, made = .conversion component source cached
  /-- What an input needs is made by exactly one task. -/
  needed : ∀ id input source, NeedsArtifact c g id input source →
    ∃! name, ∃ component cached,
    Keyed.find? job.root.tasks name = some (.conversion component source cached)
  /-- Every conversion makes an artifact for an input that needs it and gets it. -/
  used : ∀ name component source cached,
    Keyed.find? job.root.tasks name = some (.conversion component source cached) →
    ∃ id input user step, NeedsArtifact c g id input source ∧
      Keyed.find? names id = some user ∧ Keyed.find? job.root.tasks user = some step ∧
      (input, ArtifactSource.taskOutput name conversionOutput) ∈ step.artifacts
  /-- There is at most one component of conversions, and it is there if and only if there is a
      conversion. -/
  unique : ∀ entry ∈ job.components, ∀ other ∈ job.components, ∀ executor executor',
    entry.2 = .conversion executor → other.2 = .conversion executor' → entry = other
  present : (∃ entry ∈ job.components, ∃ executor, entry.2 = .conversion executor) ↔
    ∃ entry ∈ job.root.tasks, ∃ component source cached,
      entry.2 = .conversion component source cached

/-- What makes an artifact is a conversion. -/
theorem MadeFrom.exists_task {p : Parts} {name : String} {source : ParameterSource}
    (h : MadeFrom s p name source) : ∃ component cached,
      Keyed.find? p.tasks name = some (.conversion component source cached) := by
  obtain ⟨component, -, -, -, cached, hfind, -⟩ := h
  exact ⟨component, cached, hfind⟩

section Jobs

variable {arguments : Keyed Value} {g : Graph} {order : List String} {job : Job}

namespace PipelineCompiled

/-- A task of the graph has a step under its name. -/
theorem exists_step (h : PipelineCompiled P s c arguments g order job d) {id name : String}
    (hid : id ∈ order) (hname : Keyed.find? d.taskNames id = some name) :
    ∃ task component line, g.task? id = some task ∧
      StepOf s c.inputNames d.parts d.taskNames id task component line name := by
  obtain ⟨task, component, line, name', htask, hstep⟩ := h.compiled.emitted id hid
  obtain rfl := Option.some.inj (hname.symm.trans hstep.named)
  exact ⟨task, component, line, htask, hstep⟩

/-- A conversion is no task of the graph. -/
theorem not_step (h : PipelineCompiled P s c arguments g order job d)
    {name component : String} {source : ParameterSource} {cached : Bool}
    (hfind : Keyed.find? d.tasks.entries name = some (.conversion component source cached)) :
    ¬ ∃ id ∈ order, Keyed.find? d.taskNames id = some name := by
  rintro ⟨id, hid, hname⟩
  obtain ⟨task, component, line, htask, hstep⟩ := h.exists_step hid hname
  obtain ⟨entry, found, parameters, artifacts, cached', hmade, -⟩ := hstep.emitted
  cases hfind.symm.trans hmade

/-- Its name is one that was given to a record, and it has the caching of the configuration. -/
theorem conversion_kept (h : PipelineCompiled P s c arguments g order job d)
    (hthrifty : d.Thrifty s order) {name component : String} {source : ParameterSource}
    {cached : Bool}
    (hfind : Keyed.find? d.tasks.entries name = some (.conversion component source cached)) :
    name ∈ d.tasks.names.keptNames ∧ caching s = .ok cached := by
  constructor
  · exact (h.compiled.sound.defined name (Keyed.mem_keys_of_find? hfind)).resolve_right
      (h.not_step hfind)
  · obtain ⟨component', source', cached', heq, hok⟩ :=
      (hthrifty.entries _ (Keyed.mem_of_find? hfind)).resolve_left (h.not_step hfind)
    obtain ⟨-, -, rfl⟩ := JobTask.conversion.inj heq
    exact hok

/-- **Whatever is made is needed**: the artifact is bound to an input that needs it. -/
theorem exists_user (h : PipelineCompiled P s c arguments g order job d)
    (hthrifty : d.Thrifty s order) {name component : String} {source : ParameterSource}
    {cached : Bool}
    (hfind : Keyed.find? d.tasks.entries name = some (.conversion component source cached)) :
    MadeFrom s d.parts name source ∧ ∃ id input user step, NeedsArtifact c g id input source ∧
      Keyed.find? d.taskNames id = some user ∧ Keyed.find? d.tasks.entries user = some step ∧
      (input, ArtifactSource.taskOutput name conversionOutput) ∈ step.artifacts := by
  obtain ⟨hkept, -⟩ := h.conversion_kept hthrifty hfind
  obtain ⟨id, hid, user, made, input, huser, hmade, hmem⟩ := hthrifty.used name hkept
  obtain ⟨task, owner, line, htask, hstep⟩ := h.exists_step hid huser
  obtain ⟨container, hcontainer, hline⟩ := hstep.commandLine
  obtain ⟨entry, found, parameters, artifacts, cached', hmade', -, -, -, hfiles⟩ :=
    hstep.emitted
  obtain rfl := Option.some.inj (hmade.symm.trans hmade')
  obtain ⟨input', hinput, rfl, hbinds⟩ := exists_left_of_mem hfiles hmem
  have hneeds : ∀ source, madeOf? (owner.argumentFor task.arguments input) = some source →
      NeedsArtifact c g id input source := fun source hsource =>
    ⟨task, owner, container, line, htask, hstep.spec, hcontainer, hline, hinput, hsource⟩
  have hsame : ∀ source', MadeFrom s d.parts name source' → source' = source := by
    rintro source' ⟨component', -, -, -, cached'', hfound, -⟩
    exact (JobTask.conversion.inj (Option.some.inj (hfound.symm.trans hfind))).2.1
  generalize hargument : owner.argumentFor task.arguments input = argument at hbinds hneeds
  generalize hbound : ArtifactSource.taskOutput name conversionOutput = artifact at hbinds
  cases hbinds with
  | constant text made =>
    obtain ⟨rfl, -⟩ := ArtifactSource.taskOutput.inj hbound
    obtain rfl := hsame _ made
    exact ⟨made, id, input, user, _, hneeds _ rfl, huser, hmade, hmem⟩
  | input declared made =>
    obtain ⟨rfl, -⟩ := ArtifactSource.taskOutput.inj hbound
    obtain rfl := hsame _ made
    exact ⟨made, id, input, user, _, hneeds _ rfl, huser, hmade, hmem⟩
  | output producer =>
    -- the output of a task of the graph is not that of a conversion
    obtain ⟨rfl, -⟩ := ArtifactSource.taskOutput.inj hbound
    exact absurd hkept (h.compiled.sound.reserved _ _ producer).2

/-- **What an input needs is made.** -/
theorem exists_conversion (h : PipelineCompiled P s c arguments g order job d) {id input : String}
    {source : ParameterSource} (hneeds : NeedsArtifact c g id input source) :
    ∃ name, MadeFrom s d.parts name source := by
  obtain ⟨task, component, container, line, htask, hspec, hcontainer, hline, hinput, hsource⟩ :=
    hneeds
  -- The task was compiled from what the graph says of it, so its command line is the one that needs
  -- the input.
  obtain ⟨component', line', name, hstep⟩ := h.compiled.stepAt htask
  obtain rfl := Option.some.inj (hspec.symm.trans hstep.spec)
  obtain ⟨container', hcontainer', hline'⟩ := hstep.commandLine
  obtain rfl := Implementation.container.inj (hcontainer.symm.trans hcontainer')
  obtain rfl := Except.ok.inj (hline.symm.trans hline')
  obtain ⟨entry, found, parameters, artifacts, cached, -, -, -, -, hfiles⟩ := hstep.emitted
  obtain ⟨⟨_, artifact⟩, -, -, hbinds⟩ := exists_right_of_mem hfiles hinput
  -- An output of a task is an artifact already, so it is not converted.
  generalize component.argumentFor task.arguments input = argument at hbinds hsource
  dsimp only at hbinds
  cases hbinds with
  | constant text made => exact Option.some.inj hsource ▸ ⟨_, made⟩
  | input declared made => exact Option.some.inj hsource ▸ ⟨_, made⟩
  | output => cases hsource

/-- **All conversions have one component**: their executors run the same. -/
theorem conversion_component (h : PipelineCompiled P s c arguments g order job d)
    {name other component component' : String} {source source' : ParameterSource}
    {cached cached' : Bool} (hmade : MadeFrom s d.parts name source)
    (hmade' : MadeFrom s d.parts other source')
    (hfind : Keyed.find? d.tasks.entries name = some (.conversion component source cached))
    (hfind' : Keyed.find? d.tasks.entries other = some (.conversion component' source' cached')) :
    component = component' := by
  obtain ⟨_, executor, launch, conversion, _, htask, hentry, hlaunch, hok, hsame⟩ := hmade
  obtain ⟨_, executor', launch', conversion', _, htask', hentry', hlaunch', hok', hsame'⟩ :=
    hmade'
  obtain ⟨rfl, -⟩ := JobTask.conversion.inj (Option.some.inj (htask.symm.trans hfind))
  obtain ⟨rfl, -⟩ := JobTask.conversion.inj (Option.some.inj (htask'.symm.trans hfind'))
  obtain rfl := Except.ok.inj (hok.symm.trans hok')
  -- Executors with one record are one, and then so are components that name it.
  have hsound := h.compiled.sound
  have hexecutors := hsound.executorsComplete.eq_of_sameRecord hsound.executors.nodup
    (Keyed.mem_of_find? hlaunch) (Keyed.mem_of_find? hlaunch') (hsame.trans hsame'.symm)
  obtain rfl : executor = executor' := congrArg Prod.fst hexecutors
  obtain ⟨text, htext, -⟩ := hsound.componentsComplete _ (Keyed.mem_of_find? hentry)
  have hcomponents := hsound.componentsComplete.eq_of_sameRecord hsound.components.nodup
    (Keyed.mem_of_find? hentry) (Keyed.mem_of_find? hentry') ⟨text, htext, htext⟩
  exact congrArg Prod.fst hcomponents

/-- A component of conversions is that of a conversion. -/
theorem conversion_of_component (h : PipelineCompiled P s c arguments g order job d)
    (hthrifty : d.Thrifty s order) {name executor : String}
    (hentry : (name, ComponentEntry.conversion executor) ∈ d.components.entries) :
    ∃ task source cached, Keyed.find? d.tasks.entries task =
      some (.conversion name source cached) := by
  have hsound := h.compiled.sound
  have hfind := Keyed.find?_of_mem hsound.components.nodup hentry
  obtain ⟨entry, hmem, hcomponent⟩ :=
    (hsound.componentsUsed name (Keyed.mem_keys_of_find? hfind)).resolve_left List.not_mem_nil
  have htask := Keyed.find?_of_mem hsound.tasks.nodup hmem
  rcases hthrifty.entries entry hmem with ⟨id, hid, hname⟩ | ⟨component,
    source, cached, heq, -⟩
  · -- the component of a task of the graph is not shared with that of conversions
    obtain ⟨graphTask, component, line, -, hstep⟩ := h.exists_step hid hname
    obtain ⟨container, task, found, launch, -, htask', hfound, hsame, -⟩ := hstep.runs
    obtain rfl := Option.some.inj (htask.symm.trans htask')
    rw [hcomponent] at hfound
    obtain rfl := Option.some.inj (hfind.symm.trans hfound)
    cases conversion_of_sameRecord hsame.symm
  · rw [heq] at htask hcomponent
    obtain rfl : component = name := hcomponent
    exact ⟨entry.1, source, cached, htask⟩

/-- **The tasks of a job match those of its graph.** -/
theorem accounts (h : PipelineCompiled P s c arguments g order job d)
    (hthrifty : d.Thrifty s order) : Accounts c g (emittedNames s order) job := by
  have hsound := h.compiled.sound
  rw [← h.compiled.taskNames]
  -- Clause by clause, each about the tasks that the draft ended with.
  refine ⟨?_, hsound.distinct, fun id task htask => ?_, fun name made hmade => ?_,
    fun id input source hneeds => ?_, fun name component source cached hfind => ?_, ?_, ?_⟩
  · rw [h.compiled.tasks]
    exact hsound.tasks.nodup
  · obtain ⟨component, line, name, hstep⟩ := h.compiled.stepAt htask
    obtain ⟨entry, found, parameters, artifacts, cached, hmade, -⟩ := hstep.emitted
    rw [h.compiled.tasks]
    exact ⟨name, entry, parameters, artifacts, cached, hstep.named, hmade⟩
  · rw [h.compiled.tasks] at hmade
    rcases hthrifty.entries _ (Keyed.mem_of_find? hmade) with ⟨id, hid, hname⟩ |
      ⟨component, source, cached, heq, -⟩
    · obtain ⟨task, component, line, htask, -⟩ := h.exists_step hid hname
      exact .inl ⟨id, task, htask, hname⟩
    · exact .inr ⟨component, source, cached, heq⟩
  · rw [h.compiled.tasks]
    obtain ⟨name, hmade⟩ := h.exists_conversion hneeds
    obtain ⟨component, cached, hfind⟩ := hmade.exists_task
    refine ⟨name, ⟨component, cached, hfind⟩, ?_⟩
    rintro other ⟨component', cached', hfind'⟩
    obtain ⟨hmade', -⟩ := h.exists_user hthrifty hfind'
    obtain ⟨hkept, hcached⟩ := h.conversion_kept hthrifty hfind
    obtain ⟨hkept', hcached'⟩ := h.conversion_kept hthrifty hfind'
    obtain rfl := Except.ok.inj (hcached.symm.trans hcached')
    obtain rfl := h.conversion_component hmade hmade' hfind hfind'
    exact hsound.tasks.name_unique hthrifty.keys hkept' hkept hfind' hfind rfl
  · rw [h.compiled.tasks] at hfind ⊢
    exact (h.exists_user hthrifty hfind).2
  · rw [h.components]
    rintro ⟨name, _⟩ hentry ⟨other, _⟩ hother executor executor' rfl rfl
    obtain ⟨task, source, cached, hfind⟩ := h.conversion_of_component hthrifty hentry
    obtain ⟨task', source', cached', hfind'⟩ := h.conversion_of_component hthrifty hother
    obtain rfl := h.conversion_component (h.exists_user hthrifty hfind).1
      (h.exists_user hthrifty hfind').1 hfind hfind'
    exact Prod.ext rfl
      (Option.some.inj ((Keyed.find?_of_mem hsound.components.nodup hentry).symm.trans
      (Keyed.find?_of_mem hsound.components.nodup hother)))
  · rw [h.components, h.compiled.tasks]
    constructor
    · rintro ⟨⟨name, _⟩, hentry, executor, rfl⟩
      obtain ⟨task, source, cached, hfind⟩ := h.conversion_of_component hthrifty hentry
      exact ⟨_, Keyed.mem_of_find? hfind, name, source, cached, rfl⟩
    · rintro ⟨⟨name, _⟩, hmem, component, source, cached, rfl⟩
      have hfind := Keyed.find?_of_mem hsound.tasks.nodup hmem
      obtain ⟨⟨component', executor, -, -, -, -, hentry, -⟩, -⟩ :=
        h.exists_user hthrifty hfind
      exact ⟨_, Keyed.mem_of_find? hentry, executor, rfl⟩

end PipelineCompiled

/-- What is left of the compilation of a pipeline, whose tasks are no more than those that are
    needed. -/
theorem compile_thrifty {context : Context} {outputDirectory contextName : String}
    (hok : (compile context c arguments outputDirectory contextName).result = .ok job)
    (hdigests : (compile context c arguments outputDirectory contextName).SeparatesDigests) :
    ∃ s g order d, context.settings = .ok s ∧
      PipelineCompiled
        (· ∈ (compile context c arguments outputDirectory contextName).digested) s c
        arguments g order job d ∧ d.Thrifty s order := by
  obtain ⟨s, g, d, hs, hg, hgraph, hexecutors, hcomponents, hparameters⟩ :=
    compile_run (Recorded.yields_of_result hok)
  obtain ⟨order, horder, hcompiled⟩ := compileGraph_spec hdigests hgraph
  rw [hcompiled.parameters] at hparameters
  exact ⟨s, g, order, d, hs,
    ⟨hg, horder, hcompiled, hexecutors, hcomponents, rootConstants_spec hparameters⟩,
    compileGraph_thrifty hdigests horder hgraph⟩

/-- **The tasks of a job match those of its graph**, whatever the pipeline is. -/
theorem job_conversions {context : Context} {outputDirectory contextName : String}
    (hok : (compile context c arguments outputDirectory contextName).result = .ok job)
    (hdigests : (compile context c arguments outputDirectory contextName).SeparatesDigests) :
    ∃ s g order, context.settings = .ok s ∧ asGraph c = .ok g ∧
      g.order c.inputNames = .ok order ∧
      Accounts c g (emittedNames s order) job := by
  obtain ⟨s, g, order, d, hs, hpipeline, hthrifty⟩ := compile_thrifty hok hdigests
  exact ⟨s, g, order, hs, hpipeline.graph, hpipeline.ordered, hpipeline.accounts hthrifty⟩

end Jobs

end PipelineCompiler.Vertex
