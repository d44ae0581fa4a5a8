import PipelineCompiler.Proofs.Component.Needs
import PipelineCompiler.Proofs.Naming.Ready
import PipelineCompiler.Proofs.Vertex.Compile
import PipelineCompiler.Proofs.Vertex.Plain

namespace PipelineCompiler.Vertex

/-!
# Which pipelines have a job

A pipeline whose texts are whole has a job when its graph passes the check, in which tasks that are
graphs themselves fail.  A pipeline that is a container is checked as the graph around it.

* `Draft.Ready` — drafts to which every task can be added that passes its check;
* `exists_parameterFor`, `exists_artifactFor` — the two ways to bind an input;
* `addTask_agrees`, `compileTask_agrees` — a task becomes part of a draft when it passes its
  check;
* `compile_checked` — a pipeline has a job when it passes its check;
* `compile_unshown` — an argument without a plain form is noticed once all parts are made;
* `compile_verdict` — the same for flat pipelines.
-/

open Text

variable {s : Settings} {inputs order : List String} {d : Draft}

/-! ### Drafts -/

/-- A draft of a flat pipeline with some inputs and tasks: there is a name for everything that will
    be added, and all names in it are whole. -/
structure Draft.Ready (inputs order : List String) (d : Draft) : Prop where
  executors : d.executors.Ready fun _ => True
  components : d.components.Ready fun _ => True
  tasks : d.tasks.Ready fun _ => True
  named : ∀ id ∈ order, ∃ name, Keyed.find? d.taskNames id = some name
  declared : ∀ input ∈ d.parameters, input ∈ inputs

/-- There is a stem once it is known how long names may be. -/
theorem exists_checkedStem (hs : Complete s) {stem : Except Failure String}
    (h : ∃ base, stem = .ok base) : ∃ base, checkedStem s stem = .ok base := by
  obtain ⟨limit, hlimit⟩ := hs.length
  obtain ⟨base, rfl⟩ := h
  exact ⟨base, by rw [checkedStem, hlimit]; rfl⟩

/-- A plain executor gets a name. -/
theorem addExecutor_ready (hs : Complete s) (h : d.Ready inputs order)
    {stem : Except Failure String} (hstem : ∃ base, stem = .ok base) {launch : Launch}
    (hlaunch : launch.Plain) :
    ∃ name d', (d.addExecutor s stem launch).result = .ok (name, d') ∧ Whole name ∧
      d'.Ready inputs order ∧ d'.parameters = d.parameters := by
  obtain ⟨name, isNew, executors, hintern, hwhole, hready⟩ :=
    h.executors.intern executorDocument (exists_checkedStem hs hstem)
      ((executor_plain hlaunch).structuralText "name") fun _ _ => trivial
  refine ⟨name, { d with executors }, ?_, hwhole, { h with executors := hready }, rfl⟩
  rw [Draft.addExecutor, Recorded.result_bind_of_ok hintern]
  rfl

/-- A component whose names are whole gets a name. -/
theorem addComponent_ready (hs : Complete s) (h : d.Ready inputs order)
    {stem : Except Failure String} (hstem : ∃ base, stem = .ok base) (place : String)
    {entry : ComponentEntry}
    (htext : ∃ text, structuralText (some "name") entry.toValue = .ok text) :
    ∃ name d', (d.addComponent s stem place entry).result = .ok (name, d') ∧ Whole name ∧
      d'.Ready inputs order ∧ d'.parameters = d.parameters := by
  obtain ⟨name, isNew, components, hintern, hwhole, hready⟩ :=
    h.components.intern ComponentEntry.toValue (exists_checkedStem hs hstem) htext
      fun _ _ => trivial
  refine ⟨name, { d with components }, ?_, hwhole, { h with components := hready }, rfl⟩
  rw [Draft.addComponent, Recorded.result_bind_of_ok hintern]
  dsimp only
  cases isNew with
  | true => rfl
  | false => rfl

/-- A whole parameter can be converted. -/
theorem convert_ready (hs : Complete s) (h : d.Ready inputs order) {source : ParameterSource}
    (hsource : source.IsWhole) (stem place : String) :
    ∃ found d', (d.convert s source stem place).result = .ok (found, d') ∧
      d'.Ready inputs order ∧
      d'.parameters = d.parameters := by
  obtain ⟨launch, hlaunch, hplain⟩ := exists_conversionLaunch hs
  obtain ⟨enabled, henabled⟩ := hs.caching
  obtain ⟨executor, d₁, hexecutor, hwhole₁, hready₁, hused₁⟩ :=
    addExecutor_ready hs h ⟨conversionName, rfl⟩ hplain
  -- The record of the component has a text, since all its names are plain words.
  have htext : ∃ text, structuralText (some "name") (ComponentEntry.conversion executor).toValue
      = .ok text :=
    component_text (List.forall_mem_singleton.mpr (whole_of_ascii (by decide)))
      (fun _ hname => nomatch hname)
      (List.forall_mem_singleton.mpr (whole_of_ascii (by decide))) hwhole₁
  obtain ⟨component, d₂, hcomponent, hwhole₂, hready₂, hused₂⟩ :=
    addComponent_ready hs hready₁ ⟨conversionName, rfl⟩ place htext
  obtain ⟨name, isNew, tasks, hintern, -, htasks⟩ :=
    hready₂.tasks.intern JobTask.toValue (exists_checkedStem hs ⟨stem, rfl⟩)
      (conversion_text hwhole₂ hsource enabled) fun _ _ => trivial
  refine ⟨.taskOutput name conversionOutput, { d₂ with tasks }, ?_,
    { hready₂ with tasks := htasks }, hused₂.trans hused₁⟩
  -- None of the steps fails, so the conversion is what the last one gives.
  unfold Draft.convert
  rw [Recorded.result_bind_of_ok (a := launch) hlaunch, Recorded.result_bind_of_ok hexecutor,
    Recorded.result_bind_of_ok hcomponent, Recorded.result_bind_of_ok (a := enabled) henabled,
    Recorded.result_bind_of_ok hintern]
  dsimp only
  cases isNew with
  | true => rfl
  | false => rfl

/-! ### Inputs -/

/-- One more input is used. -/
theorem Draft.Ready.useInput (h : d.Ready inputs order) {input : String}
    (hinput : input ∈ inputs) :
    ({ d with parameters := insertNew d.parameters input } : Draft).Ready inputs order :=
  { h with declared := fun _ hother =>
    (mem_insertNew.mp hother).elim (h.declared _) (· ▸ hinput) }

/-- What is known after an input was bound. -/
def BoundTo (inputs order : List String) (d : Draft) (argument : Argument) (d' : Draft) : Prop :=
  d'.Ready inputs order ∧
    ∀ input, input ∈ d'.parameters ↔ input ∈ d.parameters ∨ argument.input? = some input

/-- Nothing was used. -/
theorem boundTo_of_none {argument : Argument} (hnone : argument.input? = none) {d' : Draft}
    (hready : d'.Ready inputs order) (hsame : d'.parameters = d.parameters) :
    BoundTo inputs order d argument d' :=
  ⟨hready, fun input => by simp [hsame, hnone]⟩

/-- **An input that is used as a parameter can be bound**, if its argument leads somewhere. -/
theorem exists_parameterFor (h : d.Ready inputs order) (declared : Value) (place : String)
    {argument : Argument} (hargument : argument.IsGrounded inputs order) :
    ∃ source d', (d.parameterFor declared place argument).result = .ok (source, d') ∧
      BoundTo inputs order d argument d' := by
  -- Each of the three kinds of arguments leads somewhere, so none can fail.
  cases argument with
  | literal text =>
    refine ⟨.constant (Constant.readOr text (PrimitiveType.ofType declared)).1, d, ?_,
      boundTo_of_none rfl h rfl⟩
    rw [Draft.parameterFor]
    dsimp only
    split
    · rfl
    · rfl
  | graphInput input type =>
    refine ⟨_, _, rfl, h.useInput hargument, fun other => ?_⟩
    rw [Argument.input?, Option.some.injEq, eq_comm (a := input)]
    exact mem_insertNew
  | taskOutput source =>
    obtain ⟨name, hname⟩ := h.named source.task hargument
    refine ⟨.taskOutput name source.output, d, ?_, boundTo_of_none rfl h rfl⟩
    rw [Draft.parameterFor, Recorded.result_bind_of_ok (a := name) (fetch_eq_ok.mpr hname)]
    rfl

/-- **An input that is used as a file can be bound**, if its argument leads somewhere. -/
theorem exists_artifactFor (hs : Complete s) (hinputs : ∀ input ∈ inputs, Whole input)
    (h : d.Ready inputs order) (place : String) {argument : Argument}
    (hargument : argument.IsGrounded inputs order) :
    ∃ source d', (d.artifactFor s inputs place argument).result = .ok (source, d') ∧
      BoundTo inputs order d argument d' := by
  cases argument with
  | literal text =>
    obtain ⟨source, d', hconvert, hready, hsame⟩ :=
      convert_ready hs h (.constant hargument) conversionName place
    exact ⟨source, d', hconvert, boundTo_of_none rfl hready hsame⟩
  -- An input is used first and then converted, and is bound by its name.
  | graphInput input type =>
    obtain ⟨source, d', hconvert, hready, hsame⟩ := convert_ready hs (h.useInput hargument)
      (.pipelineInput (hinputs input hargument)) s!"make-artifact-for-{input}" place
    refine ⟨source, d', ?_, hready, fun other => ?_⟩
    · rw [Draft.artifactFor, if_pos (show input ∈ inputs from hargument)]
      exact hconvert
    · rw [hsame, Argument.input?, Option.some.injEq, eq_comm (a := input)]
      exact mem_insertNew
  | taskOutput source =>
    obtain ⟨name, hname⟩ := h.named source.task hargument
    refine ⟨.taskOutput name source.output, d, ?_, boundTo_of_none rfl h rfl⟩
    rw [Draft.artifactFor, Recorded.result_bind_of_ok (a := name) (fetch_eq_ok.mpr hname)]
    rfl

/-- There are types for inputs that are declared. -/
theorem typesOf_declared {c : Component} {names : List String}
    (h : ∀ name ∈ names, name ∈ c.inputNames) :
    typesOf c names = .ok (declaredTypes c names) := by
  suffices hexists : ∃ types, typesOf c names = .ok types by
    obtain ⟨types, htypes⟩ := hexists
    rw [htypes, typesOf_spec htypes]
  induction names with
  | nil => exact ⟨[], rfl⟩
  | cons name rest ih =>
    obtain ⟨input, hinput, -⟩ := exists_fetchInput (h name List.mem_cons_self)
    obtain ⟨others, hothers⟩ := ih fun other hother => h other (List.mem_cons_of_mem _ hother)
    exact ⟨_, by rw [typesOf, hinput, hothers]; rfl⟩

/-- The record of the component of a task has a text. -/
theorem step_text {c : Component} (hc : c.IsWhole) {line : CommandLine}
    (hdeclared : ∀ name ∈ line.inputs, name ∈ c.inputNames) {executor : String}
    (hexecutor : Whole executor) :
    ∃ text, structuralText (some "name") (ComponentEntry.step (declaredTypes c line.valueInputs)
      line.pathInputs c.outputNames executor).toValue = .ok text := by
  refine component_text (fun parameter hparameter => ?_)
    (fun name hname => hc.input (hdeclared name (List.mem_append_right _ hname)))
    (fun name hname => hc.output hname) hexecutor
  obtain ⟨name, hname, rfl⟩ := List.mem_map.mp hparameter
  exact hc.input (hdeclared name (List.mem_append_left _ hname))

/-- The inputs of a task that are bound, one way or the other. -/
abbrev InputsBound {α : Type} (inputs order : List String) (b : Binder) (d : Draft)
    (names : List String) (out : Keyed α × Draft) : Prop :=
  Bound Draft.parameters (Draft.Ready inputs order) (fun _ => True) d.parameters
    (inputsOf b.arguments names) out

section Task

variable {b : Binder}
  (hgrounded : ∀ name, (b.component.argumentFor b.arguments name).IsGrounded inputs order)

include hgrounded

/-- **The inputs that are used as parameters, against their check.** -/
theorem bindParameters_agrees (hd : d.Ready inputs order) {names : List String}
    (hdeclared : ∀ name ∈ names, name ∈ b.component.inputNames) :
    Agree (.verdict False) (fun out _ => InputsBound inputs order b d names out)
      (b.bindParameters names d).result
      (b.component.checkInputs (Keyed.has b.arguments) names) := by
  refine bindings_agree id (fun _ a d => d.parameterFor a.1.type b.id a.2)
    (fun _ => rfl) (fun name rest d => ?_)
    (fun name hname => argument_agrees b.arguments b.id (hdeclared name hname))
    (fun name _ a d ha hd => ?_) hd
  · simp only [Binder.bindParameters, bind_assoc, pure_bind, id_eq]
  · obtain ⟨source, d', hout, hready, hused⟩ :=
      exists_parameterFor hd a.1.type b.id (ha ▸ hgrounded name)
    rw [hout]
    exact .both ⟨hready, trivial, hused⟩

/-- **The inputs that are used as files, against their check.** -/
theorem bindArtifacts_agrees (hs : Complete s) (hinputs : ∀ input ∈ inputs, Whole input)
    (hpipeline : b.pipelineParameters = inputs) (hd : d.Ready inputs order) {names : List String}
    (hdeclared : ∀ name ∈ names, name ∈ b.component.inputNames) :
    Agree (.verdict False) (fun out _ => InputsBound inputs order b d names out)
      (b.bindArtifacts s names d).result
      (b.component.checkInputs (Keyed.has b.arguments) names) := by
  refine bindings_agree id (fun _ a d => d.artifactFor s b.pipelineParameters b.id a.2)
    (fun _ => rfl) (fun name rest d => ?_)
    (fun name hname => argument_agrees b.arguments b.id (hdeclared name hname))
    (fun name _ a d ha hd => ?_) hd
  · simp only [Binder.bindArtifacts, bind_assoc, pure_bind, id_eq]
  · obtain ⟨source, d', hout, hready, hused⟩ :=
      exists_artifactFor hs hinputs hd b.id (ha ▸ hgrounded name)
    rw [hpipeline, hout]
    exact .both ⟨hready, trivial, hused⟩

/-- **A task of a flat pipeline, against the check of its inputs.** -/
theorem addTask_agrees (hs : Complete s) (hinputs : ∀ input ∈ inputs, Whole input)
    (hpipeline : b.pipelineParameters = inputs) (hd : d.Ready inputs order) (hid : b.id ∈ order)
    (hname : IsStem b.component.name) (hc : b.component.IsWhole) {container : Container}
    (himpl : b.component.implementation = .container container) :
    Agree (.verdict False) (fun d' more =>
        Tracks Draft.parameters (Draft.Ready inputs order) d' (d.parameters ++ more))
      (addTask s b container d).result
      (do
        let line ← Expander.commandLine
          { component := b.component, arguments := b.arguments, accessors := .plain } container
        b.component.checkInputs (Keyed.has b.arguments) line.inputs
        pure (inputsOf b.arguments line.inputs)) := by
  -- The command line is checked like the inputs, so from here on there is one, with accessors that
  -- keep texts whole.
  have hlines : Agree (.verdict False) _ (b.commandLine container) _ :=
    commandLine_inputs
      (x := { component := b.component, arguments := b.arguments, accessors,
              parameters := some (b.component.parameterInputs b.arguments b.pipelineParameters) })
      (y := { component := b.component, arguments := b.arguments, accessors := .plain })
      rfl rfl container
  unfold addTask
  rw [Recorded.result_bind]
  refine hlines.results.bind fun line line' ⟨hline, _, hsame⟩ => ?_
  have hdeclared : ∀ name ∈ line.inputs, name ∈ b.component.inputNames :=
    commandLine_declared hline
  have hwhole : line.IsWhole := commandLine_whole hc accessors_keepWhole himpl hline
  refine task_agrees hsame hdeclared ?_
  obtain ⟨executor, d₁, hexecutor, hwhole₁, hready₁, hused₁⟩ :=
    addExecutor_ready hs hd (exists_nameOr hname "executor") (launch_plain hc himpl hwhole)
  have htypes : typesOf b.component line.valueInputs = .ok (declaredTypes b.component _) :=
    typesOf_declared fun name hname => hdeclared name (List.mem_append_left _ hname)
  obtain ⟨component, d₂, hcomponent, -, hready₂, hused₂⟩ :=
    addComponent_ready hs hready₁ (exists_nameOr hname "component") b.id
      (step_text hc hdeclared hwhole₁)
  obtain ⟨enabled, henabled⟩ := hs.caching
  rw [Recorded.result_bind_of_ok hexecutor, Recorded.result_bind_of_ok (a := _) htypes,
    Recorded.result_bind_of_ok hcomponent, CommandLine.inputs, checkInputs_append,
    Recorded.result_bind]
  refine (bindParameters_agrees hgrounded hready₂ fun name hname =>
    hdeclared name (List.mem_append_left _ hname)).bind fun values _ hvalues => ?_
  rw [Recorded.result_bind]
  refine (bindArtifacts_agrees hgrounded hs hinputs hpipeline hvalues.ready fun name hname =>
    hdeclared name (List.mem_append_right _ hname)).bind_left fun files _ hfiles => ?_
  obtain ⟨name, hfind⟩ := hfiles.ready.named b.id hid
  rw [Recorded.result_bind_of_ok (a := enabled) henabled,
    Recorded.result_bind_of_ok (a := name) (fetch_eq_ok.mpr hfind)]
  refine .both ⟨{ hfiles.ready with tasks := hfiles.ready.tasks.define trivial },
    fun input => ?_⟩
  rw [inputsOf, List.filterMap_append]
  refine (hfiles.used input).trans ?_
  rw [hvalues.used input, hused₂, hused₁]
  simp only [List.mem_append, inputsOf, or_assoc]

end Task

/-! ### Tasks -/

variable {c : Component} {g : Graph}

/-- The components of the tasks of a graph have names that are texts, if they have any. -/
def HasStems (g : Graph) : Prop :=
  ∀ entry ∈ g.tasks, ∀ component ∈ entry.2.reference.spec, IsStem component.name

/-- **A task, against its check.**  Both fail for a graph. -/
theorem compileTask_agrees (hs : Complete s) (hstems : HasStems g)
    (hplanned : Planned g inputs order) (hwhole : g.IsWhole)
    (hinputs : ∀ input ∈ inputs, Whole input) {id : String} {task : GraphTask}
    (htask : g.task? id = some task) (hd : d.Ready inputs order) :
    Agree (.verdict False) (fun d' more =>
        Tracks Draft.parameters (Draft.Ready inputs order) d' (d.parameters ++ more))
      (compileTask s inputs id task d).result task.check := by
  have hentry := Keyed.mem_of_find? htask
  obtain ⟨component, hspec⟩ := Option.isSome_iff_exists.mp (hplanned.specified _ hentry)
  have hid : id ∈ order := (hplanned.mem_iff id).mpr (Keyed.mem_keys_of_find? htask)
  replace hspec : task.reference.spec = some component := hspec
  rw [compileTask, GraphTask.check]
  simp only [hspec]
  -- A graph is refused by the target, and its check is refused for the same reason.
  cases himpl : component.implementation with
  | graph inner =>
    exact .neither (Tolerance.alike_verdict (fun he => nomatch he))
  | container container =>
    exact addTask_agrees
      (b := { id, component, arguments := task.arguments, pipelineParameters := inputs })
      (fun name =>
        hplanned.isGrounded htask (hwhole.literal htask hspec name)) hs hinputs rfl hd hid
      (hstems _ hentry component hspec) ((hwhole _ hentry).2 component hspec) himpl

/-- **Tasks, against their checks.** -/
theorem compileTasks_agrees (hs : Complete s) (hstems : HasStems g)
    (hplanned : Planned g inputs order) (hwhole : g.IsWhole)
    (hinputs : ∀ input ∈ inputs, Whole input) (hd : d.Ready inputs order) :
    Agree (.verdict False) (fun d' more =>
        Tracks Draft.parameters (Draft.Ready inputs order) d' (d.parameters ++ more))
      (compileTasks s g inputs order d).result
      (checkAll (Keyed.mapValues GraphTask.check g.tasks) order) := by
  have htasks : ∀ id ∈ order, ∃ task, g.task? id = some task := fun id hid =>
    Keyed.exists_find?_of_mem_keys ((hplanned.mem_iff id).mp hid)
  exact tasks_agree (compileTask s inputs) (fun _ => rfl)
    (fun id task rest d htask => compileTasks_cons htask rest d)
    (fun id task d htask hd => compileTask_agrees hs hstems hplanned hwhole hinputs htask hd)
    htasks hd

/-! ### Pipelines -/

/-- A graph begins with a draft that is ready. -/
theorem start_ready (hs : Complete s) (inputs order : List String) :
    ∃ d, (Draft.empty s.policy).reserveAll order = .ok d ∧ d.Ready inputs order ∧
      d.parameters = [] := by
  obtain ⟨limit, hlimit⟩ := hs.length
  obtain ⟨names, a, hgiven, htasks, hnames⟩ := Registry.exists_reserved hlimit order
  refine ⟨{ Draft.empty s.policy with tasks := { names := a }, taskNames := names }, ?_,
    ⟨Registry.ready_empty hlimit, Registry.ready_empty hlimit, htasks, fun id hid => ?_,
      (fun _ hinput => nomatch hinput)⟩, rfl⟩
  · rw [reserveAll_eq]
    change (({ policy := s.policy } : NameAllocator).reserveAll [] order).map _ = _
    rw [hgiven]
    rfl
  · obtain ⟨name, hname, -⟩ := hnames id hid
    exact ⟨name, hname⟩

/-- The outputs of a graph come from its tasks. -/
theorem exists_outputsOf (hd : d.Ready inputs order) (outputValues : List (String × TaskOutput))
    (h : ∀ output ∈ outputValues, output.2.task ∈ order) :
    ∃ outputs, outputsOf d outputValues = .ok outputs := by
  induction outputValues with
  | nil => exact ⟨[], rfl⟩
  | cons output rest ih =>
    obtain ⟨name, source⟩ := output
    obtain ⟨others, hothers⟩ :=
      ih fun output houtput => h output (List.mem_cons_of_mem _ houtput)
    obtain ⟨task, htask⟩ := hd.named _ (h _ List.mem_cons_self)
    exact ⟨_, by rw [outputsOf, fetch_eq_ok.mpr htask, hothers]; rfl⟩

/-- **The graph of a job, against the checks of its tasks.**  It has the inputs that the checks
    found. -/
theorem compileGraph_agrees (hs : Complete s) (hstems : HasStems g) (hwhole : g.IsWhole)
    (hinputs : ∀ input ∈ c.inputNames, Whole input) :
    Agree (.verdict False) (fun out used => ∃ names : List String,
        out.1.parameters = declaredTypes c names ∧ (∀ name ∈ names, name ∈ c.inputNames) ∧
        ∀ name, name ∈ names ↔ name ∈ used)
      (compileGraph s c g).result (g.check GraphTask.check c.inputNames) := by
  obtain ⟨limit, hlimit⟩ := hs.length
  unfold compileGraph
  rw [Recorded.result_bind, Graph.check]
  refine (order_agrees g c.inputNames).results.bind fun order _ hordered => ?_
  obtain ⟨horder, -, rfl⟩ := hordered
  -- A graph is put in order, has names reserved for its tasks, and then has its tasks compiled in
  -- this order.
  have hplanned := order_planned horder
  obtain ⟨d, hstart, hready, hused⟩ := start_ready hs c.inputNames order
  have hlength : ∀ x : Recorded (Root × Draft), (if order.isEmpty = true then x
      else s.nameLength >>= fun _ => x).result = x.result := by
    intro x
    split
    · rfl
    · rw [Recorded.result_bind_of_ok (a := some limit) hlimit]
  dsimp only
  rw [hlength, Recorded.result_bind_of_ok (a := d) hstart, Recorded.result_bind]
  refine (compileTasks_agrees hs hstems hplanned hwhole hinputs hready).bind_left
    fun d' used hrun => ?_
  obtain ⟨hd', hsame⟩ := hrun
  rw [hused] at hsame
  obtain ⟨outputs, houtputs⟩ := exists_outputsOf hd' g.outputValues fun output houtput => by
    obtain ⟨producer, _, hproducer, -, -⟩ := hplanned.declares (hplanned.outputs output houtput)
    exact (hplanned.mem_iff _).mpr (Keyed.mem_keys_of_find? hproducer)
  rw [Recorded.result_bind_of_ok (a := _) (typesOf_declared hd'.declared),
    Recorded.result_bind_of_ok (a := outputs) houtputs]
  exact .both ⟨d'.parameters, rfl, hd'.declared, hsame⟩

/-- **The inputs of a pipeline, against their check.** -/
theorem rootConstants_agrees (texts : Keyed String) {names : List String}
    (h : ∀ name ∈ names, name ∈ c.inputNames) :
    Agree (.verdict False) (fun _ _ => True)
      (rootConstants c texts (declaredTypes c names)).result
      (c.checkInputs (Keyed.has texts) names) := by
  induction names with
  | nil => exact .both trivial
  | cons name rest ih =>
    obtain ⟨input, hinput, -, rfl⟩ := exists_fetchInput (h name List.mem_cons_self)
    have hrest := ih fun other hother => h other (List.mem_cons_of_mem _ hother)
    rw [declaredTypes, List.map_cons, rootConstants, Component.checkInputs, Component.checkInput,
      Recorded.result_bind_of_ok (a := input) hinput, Recorded.result_bind, hinput]
    refine (bound_agrees input _ _ "").bind fun text _ _ => ?_
    -- a warning may come in between
    dsimp only
    split
    · rw [Recorded.result_bind_of_ok (a := ()) rfl, Recorded.result_bind]
      exact hrest.bind_left fun _ _ _ => .both trivial
    · rw [Recorded.result_bind]
      exact hrest.bind_left fun _ _ _ => .both trivial

/-- **A pipeline whose texts are whole has a job when its graph passes the check.**  Otherwise it
    fails like the check does. -/
theorem compile_checked {context : Context} (hcontext : context.settings = .ok s)
    (hs : Complete s) (hgraph : asGraph c = .ok g) (hstems : HasStems g) (hwhole : g.IsWhole)
    (hinputs : ∀ input ∈ c.inputNames, Whole input) {arguments : Keyed Value}
    (hshown : (arguments.all fun entry => entry.2.isShown) = true)
    (outputDirectory contextName : String) :
    Agree (.verdict False) (fun _ _ => True)
      (compile context c arguments outputDirectory contextName).result (c.check g arguments) := by
  obtain ⟨limit, hlimit⟩ := hs.length
  obtain ⟨length, hlength⟩ := Settings.exists_length hlimit
  obtain ⟨sdkVersion, hsdk⟩ := hs.sdkVersion
  obtain ⟨schemaVersion, hschema⟩ := hs.schemaVersion
  unfold compile
  rw [Component.check, Recorded.result_bind_of_ok (a := s) hcontext,
    Recorded.result_bind_of_ok (a := length) hlength,
    Recorded.result_bind_of_ok (a := g) hgraph, Recorded.result_bind]
  refine (compileGraph_agrees hs hstems hwhole hinputs).bind
    fun (root, d) used ⟨names, htypes, hdeclared, hsame⟩ => ?_
  rw [Recorded.result_bind_of_ok (a := some limit) hlimit,
    Recorded.result_bind_of_ok (a := sdkVersion) hsdk,
    Recorded.result_bind_of_ok (a := schemaVersion) hschema,
    Recorded.result_bind_of_ok ((rootTexts_result c arguments).trans (if_pos hshown)), htypes]
  -- the inputs of the job are those that the check found
  refine (Agree.trans (R := fun _ _ => True) ?_ (checkInputs_congr _ hdeclared hsame)).mono
    fun _ _ _ => trivial
  rw [Recorded.result_bind]
  exact (rootConstants_agrees _ hdeclared).bind_left fun _ _ _ => .both trivial

/-- **An argument without a plain form is noticed once all parts are made.**  Until then nothing
    depends on the arguments. -/
theorem compile_unshown {context : Context} (hcontext : context.settings = .ok s)
    (hs : Complete s) (hgraph : asGraph c = .ok g) (hstems : HasStems g) (hwhole : g.IsWhole)
    (hinputs : ∀ input ∈ c.inputNames, Whole input) {arguments : Keyed Value}
    (hunshown : (arguments.all fun entry => entry.2.isShown) = false)
    (outputDirectory contextName : String) :
    FailsBehind (.verdict False) .invalidValue
      (compile context c arguments outputDirectory contextName).result
      (g.check GraphTask.check c.inputNames) := by
  obtain ⟨limit, hlimit⟩ := hs.length
  obtain ⟨length, hlength⟩ := Settings.exists_length hlimit
  obtain ⟨sdkVersion, hsdk⟩ := hs.sdkVersion
  obtain ⟨schemaVersion, hschema⟩ := hs.schemaVersion
  unfold compile
  rw [Recorded.result_bind_of_ok (a := s) hcontext,
    Recorded.result_bind_of_ok (a := length) hlength,
    Recorded.result_bind_of_ok (a := g) hgraph, Recorded.result_bind]
  refine (compileGraph_agrees hs hstems hwhole hinputs).failsBehind fun (root, d) used _ => ?_
  rw [Recorded.result_bind_of_ok (a := some limit) hlimit,
    Recorded.result_bind_of_ok (a := sdkVersion) hsdk,
    Recorded.result_bind_of_ok (a := schemaVersion) hschema, Recorded.result_bind,
    rootTexts_result, hunshown]
  rfl

/-- **A flat pipeline whose texts are whole has a job when it passes the check.**  Otherwise it
    fails like the check does. -/
theorem compile_verdict {context : Context} (hcontext : context.settings = .ok s)
    (hs : Complete s) (hflat : c.IsFlat g) (hwhole : g.IsWhole)
    (hinputs : ∀ input ∈ c.inputNames, Whole input) {arguments : Keyed Value}
    (hshown : (arguments.all fun entry => entry.2.isShown) = true)
    (outputDirectory contextName : String) :
    Agree (.verdict False) (fun _ _ => True)
      (compile context c arguments outputDirectory contextName).result (c.check g arguments) :=
  compile_checked hcontext hs (by rw [asGraph, hflat.graph])
    (fun entry hentry component hspec =>
      (hflat.tasks entry hentry component hspec).1) hwhole hinputs
    hshown outputDirectory contextName

end PipelineCompiler.Vertex
