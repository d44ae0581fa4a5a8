import PipelineCompiler.Proofs.Argo.Plain
import PipelineCompiler.Proofs.Argo.Visits
import PipelineCompiler.Proofs.Component.Needs
import PipelineCompiler.Proofs.Naming.Ready

namespace PipelineCompiler.Argo

/-!
# Which pipelines have a workflow

A pipeline, at whatever depth its containers are, has a workflow when everything in it is in order
and everything in its inputs that is needed is given, unless a constant is passed as a file.  What
gets into the workflow has to be plain.

* `Draft.Ready` — drafts to which every task can be added that passes its check;
* `parameterFor_ready`, `artifactFor_agrees` — the two ways to bind an input;
* `addTask_agrees`, `taskStep_agrees` — a task becomes part of a draft when it passes its check;
* `WritesPlainly`, `blueprint_agrees` — there is a blueprint of every component that is in order;
* `compile_checked` — a pipeline has a workflow when it passes its check;
* `compile_unshown` — an argument without a plain form is noticed once all parts are made;
* `compile_verdict` — the same for flat pipelines.
-/

open Text

variable {s : Settings} {inputs order : List String} {d : Draft}

/-! ### Drafts -/

/-- The inputs of the graph that were used so far. -/
def Draft.used (d : Draft) : List String := d.scope.parameters ++ d.scope.artifacts

/-- A draft of a graph with some inputs and tasks: there is a name for everything that will be
    added, whatever is in it is whole, and it is known as what inputs are available. -/
structure Draft.Ready (inputs order : List String) (d : Draft) : Prop where
  templates : d.templates.Ready fun _ => True
  tasks : d.scope.tasks.Ready fun entry => Whole entry.1 ∧ entry.2.IsWhole
  kinds : ∀ input ∈ inputs, ∃ kind, Keyed.find? d.scope.kinds input = some kind
  named : ∀ id ∈ order, ∃ name, Keyed.find? d.scope.taskNames id = some name ∧ Whole name
  declared : ∀ input ∈ d.used, input ∈ inputs

/-- A plain template gets a name. -/
theorem addTemplate_ready (hs : Complete s) {templates : Registry Template}
    (h : templates.Ready fun _ => True) {stem : Except Failure String}
    (hstem : ∃ base, stem = .ok base) (path : List String) {t : Template}
    (ht : PlainFields t.fields) :
    ∃ name templates', (addTemplate s templates stem path t).result = .ok (name, templates') ∧
      Whole name ∧ templates'.Ready fun _ => True := by
  obtain ⟨limit, hlimit⟩ := hs.length
  obtain ⟨base, rfl⟩ := hstem
  -- The length is checked before a stem is looked at, and both are there.
  have hchecked : ∃ found, (s.nameLength.bind fun _ => .ok base) = .ok found :=
    ⟨base, by rw [hlimit]; rfl⟩
  obtain ⟨name, isNew, templates', hintern, hwhole, hready⟩ :=
    h.intern Template.record hchecked (ht.structuralText "name") fun _ _ => trivial
  refine ⟨name, templates', ?_, hwhole, hready⟩
  unfold addTemplate
  rw [Recorded.result_bind_of_ok hintern]
  dsimp only
  cases isNew with
  | true => rfl
  | false => rfl

/-- A whole artifact can be converted. -/
theorem convert_ready (hs : Complete s) (h : d.Ready inputs order) {source : Reference}
    (hsource : source.IsWhole) (stem : String) :
    ∃ reference d', (d.convert s source stem).result = .ok (reference, d') ∧
      reference.IsWhole ∧ d'.Ready inputs order ∧ d'.used = d.used := by
  obtain ⟨t, ht, hplain⟩ := exists_conversionTemplate hs
  obtain ⟨template, templates, htemplate, hwhole, htemplates⟩ :=
    addTemplate_ready hs h.templates ⟨"convert-artifact-to-parameter", rfl⟩ d.scope.path hplain
  -- A conversion has one input, from a source that is whole, and no parameters.
  have hinput : Whole conversionInput := whole_of_ascii (by decide)
  have htask : (DagTask.conversion template source).IsWhole :=
    ⟨hwhole, (fun _ hbinding => nomatch hbinding),
      List.forall_mem_singleton.mpr ⟨hinput, hsource⟩⟩
  obtain ⟨name, isNew, tasks, hintern, hname, htasks⟩ :=
    h.tasks.intern DagTask.record ⟨stem, rfl⟩ (htask.fields.structuralText "name")
      fun _ hname => ⟨hname, htask⟩
  refine ⟨.taskParameter name conversionOutput,
    { templates, scope := { d.scope with tasks } }, ?_,
    ⟨hname, whole_of_ascii (by decide)⟩, ⟨htemplates, htasks, h.kinds, h.named, h.declared⟩,
    rfl⟩
  unfold Draft.convert
  rw [Recorded.result_bind_of_ok (a := t) ht, Recorded.result_bind_of_ok htemplate,
    Recorded.result_bind_of_ok hintern]
  dsimp only
  cases isNew with
  | true => rfl
  | false => rfl

/-! ### Inputs -/

/-- One more input is used. -/
theorem useParameter_used (d : Draft) (input : String) : ∀ other,
    other ∈ ({ d with scope := (d.scope.useParameter input).2 } : Draft).used ↔
      other ∈ d.used ∨ other = input := by
  intro other
  simp only [Draft.used, Scope.useParameter, List.mem_append, mem_insertNew]
  tauto

/-- One more input is used. -/
theorem useArtifact_used (d : Draft) (input : String) : ∀ other,
    other ∈ ({ d with scope := (d.scope.useArtifact input).2 } : Draft).used ↔
      other ∈ d.used ∨ other = input := by
  intro other
  simp only [Draft.used, Scope.useArtifact, List.mem_append, mem_insertNew]
  tauto

/-- The output of a task is there, and its name is whole. -/
theorem Draft.Ready.taskArtifact (h : d.Ready inputs order) (source : TaskOutput)
    (hsource : source.task ∈ order) :
    ∃ reference, d.scope.taskArtifact source = .ok reference ∧ reference.IsWhole := by
  obtain ⟨name, hname, hwhole⟩ := h.named source.task hsource
  refine ⟨.taskArtifact name (sanitizeIoName source.output), ?_, hwhole, whole_sanitizeIoName _⟩
  rw [Scope.taskArtifact, fetch_eq_ok.mpr hname]
  rfl

/-- What is known after an input was bound. -/
def BoundTo (inputs order : List String) (d : Draft) (argument : Argument)
    (out : Reference × Draft) : Prop :=
  out.2.Ready inputs order ∧ out.1.IsWhole ∧
    ∀ input, input ∈ out.2.used ↔ input ∈ d.used ∨ argument.input? = some input

/-- One more input of the graph is used, one way or the other. -/
theorem boundTo_input (h : d.Ready inputs order) {input : String} (hinput : input ∈ inputs)
    (type : Value) {reference : Reference} (hreference : reference.IsWhole)
    {parameters artifacts : List String}
    (hused : ∀ other, other ∈ parameters ++ artifacts ↔ other ∈ d.used ∨ other = input) :
    BoundTo inputs order d (.graphInput input type)
      (reference, { d with scope := { d.scope with parameters, artifacts } }) := by
  refine ⟨{ h with declared := fun other hother => ?_ }, hreference, fun other => ?_⟩
  · rcases (hused other).mp hother with hother | rfl
    · exact h.declared other hother
    · exact hinput
  · rw [Argument.input?, Option.some.injEq, eq_comm (a := input)]
    exact hused other

/-- **An input that is used as a parameter can be bound**, if its argument leads somewhere. -/
theorem parameterFor_ready (hs : Complete s) (h : d.Ready inputs order) {argument : Argument}
    (hargument : argument.IsGrounded inputs order) :
    ∃ out, (d.parameterFor s argument).result = .ok out ∧
      BoundTo inputs order d argument out := by
  -- Only an input that the graph has as an artifact, or an output of a task, has to be converted.
  cases argument with
  | literal text => exact ⟨_, rfl, h, hargument, fun input => by simp [Argument.input?]⟩
  | graphInput input type =>
    obtain ⟨kind, hfind⟩ := h.kinds input hargument
    have hkind : Keyed.fetch d.scope.kinds input = .ok kind := fetch_eq_ok.mpr hfind
    rw [Draft.parameterFor, Recorded.result_bind_of_ok (a := kind) hkind]
    have hparameter : (Reference.parameter (sanitizeIoName input)).IsWhole :=
      whole_sanitizeIoName input
    have hartifact : (Reference.artifact (sanitizeIoName input)).IsWhole :=
      whole_sanitizeIoName input
    cases kind with
    | any | parameter =>
      exact ⟨_, rfl, boundTo_input h hargument type hparameter (useParameter_used d input)⟩
    | artifact =>
      have hbound := boundTo_input h hargument type hartifact (useArtifact_used d input)
      obtain ⟨reference, d', hconvert, hreference, hready, hused⟩ :=
        convert_ready hs hbound.1 hartifact s!"convert-{input}"
      exact ⟨(reference, d'), hconvert, hready, hreference, fun other => by
        rw [hused]
        exact hbound.2.2 other⟩
  | taskOutput source =>
    obtain ⟨artifact, hartifact, hwhole⟩ := h.taskArtifact source hargument
    obtain ⟨reference, d', hconvert, hreference, hready, hused⟩ :=
      convert_ready hs h hwhole s!"convert-{source.task}-{source.output}"
    refine ⟨(reference, d'), ?_, hready, hreference, fun input => by
      simp [hused, Argument.input?]⟩
    rw [Draft.parameterFor, Recorded.result_bind_of_ok (a := artifact) hartifact]
    exact hconvert

/-- **An input that is used as a file can be bound**, if its argument leads somewhere and is no
    constant. -/
theorem artifactFor_agrees (h : d.Ready inputs order) (inputName : String) {argument : Argument}
    (hargument : argument.IsGrounded inputs order) :
    Agree (.verdict True) (fun out (_ : Unit) => BoundTo inputs order d argument out)
      (d.artifactFor inputName argument) (.ok ()) := by
  -- A constant stops, and so does an input that is available as a parameter only.
  cases argument with
  | literal text => exact .stopped ⟨trivial, [], rfl⟩
  | graphInput input type =>
    obtain ⟨kind, hfind⟩ := h.kinds input hargument
    have hreference : (Reference.artifact (sanitizeIoName input)).IsWhole :=
      whole_sanitizeIoName input
    rw [Draft.artifactFor, fetch_eq_ok.mpr hfind]
    cases kind with
    | any | artifact =>
      exact .both (boundTo_input h hargument type hreference (useArtifact_used d input))
    | parameter => exact .stopped ⟨trivial, [], rfl⟩
  | taskOutput source =>
    obtain ⟨artifact, hartifact, hwhole⟩ := h.taskArtifact source hargument
    rw [Draft.artifactFor, hartifact]
    exact .both ⟨h, hwhole, fun input => by simp [Argument.input?]⟩

/-- The inputs of a task that are bound, one way or the other. -/
abbrev InputsBound (inputs order : List String) (b : Binder) (d : Draft) (names : List String)
    (out : List (String × Reference) × Draft) : Prop :=
  Bound Draft.used (Draft.Ready inputs order) (fun binding => Whole binding.1 ∧ binding.2.IsWhole)
    d.used (inputsOf b.arguments names) out

section Task

variable {b : Binder} {names : List String}
  (hgrounded : ∀ name ∈ names,
    (b.component.argumentFor b.arguments name).IsGrounded inputs order)
  (hdeclared : ∀ name ∈ names, name ∈ b.component.inputNames)

include hgrounded hdeclared

/-- **The inputs that are used as parameters, against their check.** -/
theorem bindParameters_agrees (hs : Complete s) (hd : d.Ready inputs order) :
    Agree (.verdict True) (fun out _ => InputsBound inputs order b d names out)
      (b.bindParameters s names d).result
      (b.component.checkInputs (Keyed.has b.arguments) names) := by
  refine bindings_agree sanitizeIoName (fun _ a d => d.parameterFor s a.2)
    (fun _ => rfl) (fun name rest d => ?_)
    (fun name hname => argument_agrees b.arguments b.place (hdeclared name hname))
    (fun name hname a d ha hd => ?_) hd
  · simp only [Binder.bindParameters, Binder.argument, bind_assoc, pure_bind]
  · obtain ⟨out, hout, hready, hwhole, hused⟩ :=
      parameterFor_ready hs hd (ha ▸ hgrounded name hname)
    rw [hout]
    exact .both ⟨hready, ⟨whole_sanitizeIoName name, hwhole⟩, hused⟩

/-- **The inputs that are used as files, against their check.** -/
theorem bindArtifacts_agrees (hd : d.Ready inputs order) :
    Agree (.verdict True) (fun out _ => InputsBound inputs order b d names out)
      (b.bindArtifacts names d).result
      (b.component.checkInputs (Keyed.has b.arguments) names) := by
  refine bindings_agree sanitizeIoName (fun name a d => liftM (d.artifactFor name a.2))
    (fun _ => rfl) (fun name rest d => ?_)
    (fun name hname => argument_agrees b.arguments b.place (hdeclared name hname))
    (fun name hname a d ha hd => ?_) hd
  · simp only [Binder.bindArtifacts, Binder.argument, bind_assoc, pure_bind]
  · refine (artifactFor_agrees hd name (ha ▸ hgrounded name hname)).mono fun out _ hout => ?_
    exact ⟨hout.1, ⟨whole_sanitizeIoName name, hout.2.1⟩, hout.2.2⟩

end Task

/-- **A task with a plain template, against the check of its inputs.** -/
theorem addTask_agrees (hs : Complete s) (hd : d.Ready inputs order) {id : String}
    (hid : id ∈ order) {b : Binder} (hname : IsStem b.component.name) (path : List String)
    {blueprint : Blueprint} (hplain : PlainFields blueprint.template.fields)
    (hgrounded : ∀ name ∈ blueprint.parameters ++ blueprint.artifacts,
      (b.component.argumentFor b.arguments name).IsGrounded inputs order)
    (hdeclared : ∀ name ∈ blueprint.parameters ++ blueprint.artifacts,
      name ∈ b.component.inputNames) :
    Agree (.verdict True) (fun d' _ => Tracks Draft.used (Draft.Ready inputs order) d'
        (d.used ++ inputsOf b.arguments (blueprint.parameters ++ blueprint.artifacts)))
      (addTask s id b path blueprint d).result
      (b.component.checkInputs (Keyed.has b.arguments)
        (blueprint.parameters ++ blueprint.artifacts)) := by
  obtain ⟨template, templates, htemplate, hwhole, htemplates⟩ :=
    addTemplate_ready hs hd.templates (exists_nameOr hname "component") path hplain
  have hd₁ : ({ d with templates } : Draft).Ready inputs order :=
    ⟨htemplates, hd.tasks, hd.kinds, hd.named, hd.declared⟩
  rw [checkInputs_append]
  unfold addTask
  rw [Recorded.result_bind_of_ok htemplate, Recorded.result_bind]
  -- The values are bound first and the files after them, in the draft that the values have left.
  refine (bindParameters_agrees (fun name hname => hgrounded name (List.mem_append_left _ hname))
    (fun name hname => hdeclared name (List.mem_append_left _ hname)) hs hd₁).bind
    fun values _ hvalues => ?_
  rw [Recorded.result_bind]
  refine (bindArtifacts_agrees (fun name hname => hgrounded name (List.mem_append_right _ hname))
    (fun name hname => hdeclared name (List.mem_append_right _ hname)) hvalues.ready).bind_left
    fun files _ hfiles => ?_
  obtain ⟨name, hfind, hwholeName⟩ := hfiles.ready.named id hid
  rw [Recorded.result_bind_of_ok (a := name) (fetch_eq_ok.mpr hfind)]
  refine .both ⟨⟨hfiles.ready.templates, hfiles.ready.tasks.define ⟨hwholeName,
    hwhole, ?_, ?_⟩,
    hfiles.ready.kinds, hfiles.ready.named, hfiles.ready.declared⟩, fun input => ?_⟩
  · exact hvalues.good
  · exact hfiles.good
  -- What is used in the end is what both kinds of bindings use, and that is what the check counts.
  · rw [inputsOf, List.filterMap_append]
    refine (hfiles.used input).trans ?_
    rw [hvalues.used input]
    simp only [List.mem_append, inputsOf, or_assoc]
    rfl

/-! ### Components -/

variable {c : Component} {g : Graph}

/-- What gets into a workflow from something that stands somewhere is plain: the container that it
    runs, and the texts that are written down in its graph for what is needed there. -/
structure WritesPlainly (here : Placed) : Prop where
  launch : ∀ container, here.component.implementation = .container container →
    ∀ line, here.component.commandLine here.arguments accessors = .ok line →
      (Launch.ofCommandLine container.image line).Plain
  literals : ∀ g, here.component.implementation = .graph g → ∀ id task component,
    g.task? id = some task → task.reference.spec = some component → ∀ names,
      component.needs task.arguments = .ok names → ∀ name ∈ names, ∀ text,
        component.argumentFor task.arguments name = .literal text → Whole text

/-- Whatever stands somewhere in a pipeline is plain, and has a name that is a text if it has
    one. -/
def PlainThroughout (c : Component) : Prop :=
  ∀ path here, c.at? path = some here → IsStem here.component.name ∧ WritesPlainly here

/-- A blueprint of a component reads what the component needs, and the templates of its tasks are
    there. -/
structure Blueprint.Meets (c : Component) (out : Blueprint × Registry Template)
    (needed : List String) : Prop where
  plain : PlainFields out.1.template.fields
  templates : out.2.Ready fun _ => True
  declared : ∀ input ∈ out.1.parameters ++ out.1.artifacts, input ∈ c.inputNames
  reads : ∀ input, input ∈ out.1.parameters ++ out.1.artifacts ↔ input ∈ needed

/-- **The blueprint of a container meets its needs**, if there is a command line. -/
theorem containerBlueprint_agrees (hs : Complete s) {here : Placed} (hplain : WritesPlainly here)
    {container : Container} (himpl : here.component.implementation = .container container)
    {templates : Registry Template} (ht : templates.Ready fun _ => True) :
    Agree (.verdict True) (fun blueprint needed =>
        Blueprint.Meets here.component (blueprint, templates) needed)
      (containerBlueprint s here.component container here.arguments)
      (here.component.needs here.arguments) := by
  rw [containerBlueprint]
  -- Only the command line can fail; from here on, files and names are written without errors.
  refine (needs_agrees accessors himpl).results.bind_left
    fun line needed ⟨hline, _, hsame, hdeclared⟩ => ?_
  obtain ⟨artifacts, hartifacts, hartifactsWhole⟩ :=
    exists_files (exists_fileOf hs.file hs.inputs) line.pathInputs
  obtain ⟨outputs, houtputs, houtputsWhole⟩ :=
    exists_files (exists_fileOf hs.file hs.outputs) here.component.outputNames
  rw [show line.pathInputs.mapM (inputFile s) = .ok artifacts from hartifacts,
    show here.component.outputNames.mapM (outputFile s) = .ok outputs from houtputs]
  have hlaunch : (Launch.ofCommandLine container.image line).Plain := by
    refine hplain.launch container himpl line ?_
    rw [Component.commandLine, himpl]
    exact hline
  exact .both ⟨container_plain hartifactsWhole houtputsWhole hlaunch, ht, hdeclared, hsame⟩

/-- It is known as what the inputs of a task are available. -/
theorem exists_kindsOf (hd : d.Ready inputs order) {arguments : Keyed Argument}
    (h : ∀ argument ∈ arguments, ∀ input type, argument.2 = .graphInput input type →
      input ∈ inputs) (specs : List InputSpec) :
    ∃ kinds, d.scope.kindsOf arguments specs = .ok kinds := by
  -- By induction on the inputs: constants and outputs have their kinds, and an input of the graph
  -- has one in the scope.
  induction specs with
  | nil => exact ⟨[], rfl⟩
  | cons input rest ih =>
    obtain ⟨kinds, hkinds⟩ := ih
    obtain ⟨kind, hkind⟩ : ∃ kind,
        d.scope.kindOf (Keyed.find? arguments input.name) = .ok kind := by
      cases hfind : Keyed.find? arguments input.name with
      | none => exact ⟨_, rfl⟩
      | some argument =>
        cases argument with
        | literal | taskOutput => exact ⟨_, rfl⟩
        | graphInput name type =>
          obtain ⟨kind, hkind⟩ := hd.kinds name (h _ (Keyed.mem_of_find? hfind) name type rfl)
          exact ⟨kind, fetch_eq_ok.mpr hkind⟩
    exact ⟨(input.name, kind) :: kinds, by rw [Scope.kindsOf, hkind, hkinds]; rfl⟩

/-- **A task of a graph, against its check**, when the blueprint of its component meets its
    needs. -/
theorem taskStep_agrees (hs : Complete s) (hplanned : Planned g inputs order) {id : String}
    {task : GraphTask} (htask : g.task? id = some task) {component : Component}
    (hspec : task.reference.spec = some component) (hname : IsStem component.name)
    (hliterals : ∀ names, component.needs task.arguments = .ok names →
      ∀ name ∈ names, ∀ text,
      component.argumentFor task.arguments name = .literal text → Whole text)
    (hinner : ∀ kinds path templates,
      (∀ input ∈ component.inputNames, ∃ kind, Keyed.find? kinds input = some kind) →
      templates.Ready (fun _ => True) → Agree (.verdict True) (Blueprint.Meets component)
        (componentBlueprint s task.arguments kinds path templates component).result
        (component.needs task.arguments))
    (hd : d.Ready inputs order) :
    Agree (.verdict True)
      (fun d' more => Tracks Draft.used (Draft.Ready inputs order) d' (d.used ++ more))
      (taskStep s id task d).result task.needs := by
  -- The kinds of the inputs of a planned graph are known.
  have hid : id ∈ order := (hplanned.mem_iff id).mpr (Keyed.mem_keys_of_find? htask)
  obtain ⟨kinds, hkinds⟩ := exists_kindsOf hd (fun argument hargument _ _ heq =>
    hplanned.input htask hargument heq) component.inputs
  have hfound : ∀ input ∈ component.inputNames, ∃ kind, Keyed.find? kinds input = some kind :=
    fun input hinput => (find?_kindsOf hkinds hinput).imp fun _ h => h.1
  rw [taskStep_eq hspec, needs_task hspec]
  dsimp only
  rw [Recorded.result_bind_of_ok (a := kinds) hkinds, Recorded.result_bind]
  -- The component within meets its needs, and then the task is added or its check fails.
  refine (hinner kinds _ d.templates hfound hd.templates).results.bind
    fun (blueprint, templates) names ⟨_, hneeds, hmeets⟩ => ?_
  refine task_agrees hmeets.reads hmeets.declared ?_
  refine addTask_agrees (b := { component, arguments := task.arguments, place := _ })
    (d := { d with templates }) hs
    ⟨hmeets.templates, hd.tasks, hd.kinds, hd.named, hd.declared⟩ hid hname _ hmeets.plain
    (fun name hmem => ?_) hmeets.declared
  exact hplanned.isGrounded htask (hliterals names hneeds name ((hmeets.reads name).mp hmem))

/-- A graph begins with a draft that is ready. -/
theorem start_ready (hs : Complete s) (path : List String) {kinds : Keyed InputKind}
    (hkinds : ∀ input ∈ inputs, ∃ kind, Keyed.find? kinds input = some kind)
    {templates : Registry Template} (ht : templates.Ready fun _ => True) (order : List String) :
    ∃ scope, Scope.start s path kinds order = .ok scope ∧
      ({ templates, scope } : Draft).Ready inputs order ∧
      ({ templates, scope } : Draft).used = [] := by
  obtain ⟨limit, hlimit⟩ := hs.length
  -- Names are reserved for all tasks at once, and there is room for each.
  obtain ⟨names, a, hgiven, htasks, hnames⟩ := Registry.exists_reserved hlimit order
  have hreserve : Scope.reserveAll { path, kinds, tasks := .empty s.policy } order =
      .ok { path, kinds, tasks := { names := a }, taskNames := names } := by
    rw [reserveAll_eq]
    change (({ policy := s.policy } : NameAllocator).reserveAll [] order).map _ = _
    rw [hgiven]
    rfl
  refine ⟨{ path, kinds, tasks := { names := a }, taskNames := names }, ?_,
    ⟨ht, htasks, hkinds, hnames, (fun _ hinput => nomatch hinput)⟩, rfl⟩
  unfold Scope.start
  rw [hlimit]
  split
  · exact hreserve
  · exact hreserve

/-- The outputs of a graph come from its tasks. -/
theorem exists_outputsOf (hd : d.Ready inputs order) (outputValues : List (String × TaskOutput))
    (h : ∀ output ∈ outputValues, output.2.task ∈ order) :
    ∃ outputs, outputsOf d.scope outputValues = .ok outputs ∧
      ∀ output ∈ outputs, Whole output.1 ∧ output.2.IsWhole := by
  induction outputValues with
  | nil => exact ⟨[], rfl, fun _ houtput => nomatch houtput⟩
  | cons output rest ih =>
    obtain ⟨name, source⟩ := output
    obtain ⟨others, hothers, hwhole⟩ :=
      ih fun output houtput => h output (List.mem_cons_of_mem _ houtput)
    obtain ⟨reference, hreference, hreferenceWhole⟩ :=
      hd.taskArtifact source (h _ List.mem_cons_self)
    refine ⟨(sanitizeIoName name, reference) :: others,
      by rw [outputsOf, hreference, hothers]; rfl, fun output houtput => ?_⟩
    rcases List.mem_cons.mp houtput with rfl | houtput
    · exact ⟨whole_sanitizeIoName name, hreferenceWhole⟩
    · exact hwhole output houtput

/-- **The blueprint of a graph is there, and plain**, when its tasks are compiled. -/
theorem exists_graphBlueprint (hplanned : Planned g inputs order) (hd : d.Ready inputs order) :
    ∃ blueprint, graphBlueprint d.scope g.outputValues = .ok blueprint ∧
      PlainFields blueprint.template.fields ∧ blueprint.parameters = d.scope.parameters ∧
      blueprint.artifacts = d.scope.artifacts := by
  obtain ⟨outputs, houtputs, hwhole⟩ :=
    exists_outputsOf hd g.outputValues fun output houtput => by
      obtain ⟨producer, _, hproducer, -, -⟩ :=
        hplanned.declares (hplanned.outputs output houtput)
      exact (hplanned.mem_iff _).mpr (Keyed.mem_keys_of_find? hproducer)
  exact ⟨_, by rw [graphBlueprint, houtputs]; rfl, dag_plain hwhole hd.tasks.entries, rfl, rfl⟩

/-- **The blueprint of whatever stands somewhere in a pipeline meets its needs**, unless a constant
    is passed as a file, or it is not in order. -/
theorem blueprint_agrees (hs : Complete s) (hplain : PlainThroughout c) {path : List String}
    {here : Placed} (hhere : c.at? path = some here) {kinds : Keyed InputKind}
    (hkinds : ∀ input ∈ here.component.inputNames, ∃ kind,
      Keyed.find? kinds input = some kind)
    (place : List String) {templates : Registry Template} (ht : templates.Ready fun _ => True) :
    Agree (.verdict True) (Blueprint.Meets here.component)
      (componentBlueprint s here.arguments kinds place templates here.component).result
      (here.component.needs here.arguments) := by
  obtain ⟨component, arguments⟩ := here
  -- By induction on the component that stands at the place; a graph leads to places one task
  -- further down.
  induction component using Component.nesting
    generalizing path arguments kinds place templates with
  | container component container himpl =>
    rw [componentBlueprint_container himpl, Recorded.result_bind]
    exact (containerBlueprint_agrees hs (hplain path _ hhere).2 himpl ht).bind_left
      fun _ _ hmeets => .both hmeets
  | graph component g himpl ih =>
    rw [componentBlueprint_graph himpl, needs_graph himpl, Graph.check, Recorded.result_bind]
    refine (order_agrees g component.inputNames).results.bind fun order _ hordered => ?_
    obtain ⟨horder, -, rfl⟩ := hordered
    have hplanned := order_planned horder
    obtain ⟨scope, hscope, hready, hused⟩ := start_ready hs place hkinds ht order
    rw [Recorded.result_bind_of_ok (a := scope) hscope, Recorded.result_bind]
    -- The tasks are compiled in the planned order, each against the check of the component that
    -- stands in it.
    have htasks : Agree (.verdict True)
        (fun d' more => Tracks Draft.used (Draft.Ready component.inputNames order) d'
          (Draft.used { templates, scope } ++ more))
        (runTasks (taskSteps s g.tasks) order { templates, scope }).result
        (checkAll (Keyed.mapValues GraphTask.needs g.tasks) order) := by
      refine tasks_agree (taskStep s) (fun _ => rfl) (fun id task rest d htask => ?_)
        (fun id task d htask hd => ?_) (fun id hid => ?_) hready
      · exact runTasks_cons htask rest d
      · have hentry := Keyed.mem_of_find? htask
        obtain ⟨inner, hspec⟩ := Option.isSome_iff_exists.mp (hplanned.specified _ hentry)
        have hat : c.at? (id :: path) = some { component := inner, arguments := task.arguments } :=
          at?_cons.mpr ⟨_, g, task, hhere, himpl, htask, hspec, rfl⟩
        exact taskStep_agrees hs hplanned htask hspec (hplain _ _ hat).1
          ((hplain path _ hhere).2.literals g himpl id task inner htask hspec)
          (fun kinds place templates hkinds ht => ih _ hentry inner hspec place ht _ hat hkinds) hd
      · exact Keyed.exists_find?_of_mem_keys ((hplanned.mem_iff id).mp hid)
    refine htasks.bind_left fun d needed hrun => ?_
    obtain ⟨hd, hsame⟩ := hrun
    obtain ⟨blueprint, hblueprint, hfields, hparameters, hartifacts⟩ :=
      exists_graphBlueprint hplanned hd
    rw [Recorded.result_bind_of_ok (a := blueprint) hblueprint]
    refine .both ⟨hfields, hd.templates, ?_, ?_⟩
    · rw [hparameters, hartifacts]
      exact hd.declared
    · rw [hparameters, hartifacts]
      intro input
      rw [← List.nil_append needed, ← hused]
      exact hsame input

/-! ### Pipelines -/

/-- **The inputs of a pipeline, against their check.** -/
theorem rootBindings_agrees (texts : Keyed String) {names : List String}
    (h : ∀ name ∈ names, name ∈ c.inputNames) :
    Agree (.verdict True) (fun _ _ => True) (rootBindings c texts names).result
      (c.checkInputs (Keyed.has texts) names) := by
  -- By induction on the names, as the check of the inputs goes.
  induction names with
  | nil => exact .both trivial
  | cons name rest ih =>
    have hopen : rootBindings c texts (name :: rest) =
        (do
          let input ← c.fetchInput name
          input.rootText texts : Recorded String) >>= fun text =>
        rootBindings c texts rest >>= fun others =>
          pure ((sanitizeIoName name, text) :: others) := by
      simp only [rootBindings, bind_assoc]
    rw [hopen, Component.checkInputs, Recorded.result_bind]
    refine (rootText_agrees texts (h name List.mem_cons_self)).bind fun text _ _ => ?_
    rw [Recorded.result_bind]
    exact (ih fun other hother => h other (List.mem_cons_of_mem _ hother)).bind_left
      fun _ _ _ => .both trivial

/-- **The parts of a workflow**, against what is needed for them.  They are made before the
    arguments of the caller are looked at. -/
theorem parts_agree (hs : Complete s) (hplain : PlainThroughout c) :
    Agree (.verdict True)
      (fun made used => Blueprint.Meets c made used ∧ ∃ named,
        (addTemplate s made.2 (nameOr c.name "pipeline") [] made.1.template).result = .ok named)
      (componentBlueprint s (rootArguments c) (rootKinds c) [] (.empty s.policy) c).result
      (c.needs (rootArguments c)) := by
  obtain ⟨limit, hnames⟩ := hs.length
  have hkinds : ∀ input ∈ c.inputNames, ∃ kind, Keyed.find? (rootKinds c) input = some kind :=
    fun input hinput => ⟨_, find?_rootKinds hinput⟩
  have hroot : c.at? [] = some { component := c, arguments := rootArguments c } := rfl
  refine (blueprint_agrees hs hplain hroot hkinds [] (Registry.ready_empty hnames)).mono
    fun (blueprint, templates) used hmeets => ⟨hmeets, ?_⟩
  obtain ⟨name, templates', htemplate, -, -⟩ :=
    addTemplate_ready hs hmeets.templates (exists_nameOr (hplain [] _ rfl).1 "pipeline") []
      hmeets.plain
  exact ⟨(name, templates'), htemplate⟩

/-- **A pipeline has a workflow when everything in it is in order and what it needs is given.**
    Otherwise it fails for a reason of the same kind in the same task, unless a constant is passed
    as a file before that. -/
theorem compile_checked {context : Context} (hcontext : context.settings = .ok s)
    (hs : Complete s) (hplain : PlainThroughout c) {arguments : Keyed Value}
    (hshown : (arguments.all fun entry => entry.2.isShown) = true) :
    Agree (.verdict True) (fun _ _ => True) (compile context c arguments).result
      (c.needs (rootArguments c) >>= c.checkInputs (Keyed.has (c.givenTexts arguments))) := by
  obtain ⟨limit, hnames⟩ := hs.length
  obtain ⟨length, hlength⟩ := Settings.exists_length hnames
  obtain ⟨runs, hruns⟩ := hs.runs
  obtain ⟨stated, annotations, hstated, hannotations⟩ := hs.annotations
  obtain ⟨stem, hstem⟩ := exists_nameOr (hplain [] _ rfl).1 ""
  unfold compile
  rw [Recorded.result_bind_of_ok (a := s) hcontext,
    Recorded.result_bind_of_ok (a := length) hlength]
  dsimp only
  rw [Recorded.result_bind]
  refine (parts_agree hs hplain).bind
    fun (blueprint, templates) used ⟨hmeets, named, htemplate⟩ => ?_
  rw [Recorded.result_bind_of_ok htemplate,
    Recorded.result_bind_of_ok ((rootTexts_result c arguments).trans (if_pos hshown))]
  -- the inputs that the workflow reads are those that the check found
  refine (Agree.trans (R := fun _ _ => True) ?_
    (checkInputs_congr _ hmeets.declared hmeets.reads)).mono fun _ _ _ => trivial
  rw [checkInputs_append, Recorded.result_bind]
  refine (rootBindings_agrees _ fun input hinput =>
    hmeets.declared input (List.mem_append_left _ hinput)).bind fun _ _ _ => ?_
  rw [Recorded.result_bind]
  refine (rootBindings_agrees _ fun input hinput =>
    hmeets.declared input (List.mem_append_right _ hinput)).bind_left fun _ _ _ => ?_
  rw [Recorded.result_bind_of_ok (a := runs) hruns, Recorded.result_bind_of_ok (a := stem) hstem,
    Recorded.result_bind_of_ok (a := stated) hstated,
    Recorded.result_bind_of_ok (a := annotations) hannotations]
  exact .both trivial

/-- **An argument without a plain form is noticed once all parts are made.**  Until then nothing
    depends on the arguments. -/
theorem compile_unshown {context : Context} (hcontext : context.settings = .ok s)
    (hs : Complete s) (hplain : PlainThroughout c) {arguments : Keyed Value}
    (hunshown : (arguments.all fun entry => entry.2.isShown) = false) :
    FailsBehind (.verdict True) .invalidValue (compile context c arguments).result
      (c.needs (rootArguments c)) := by
  obtain ⟨limit, hnames⟩ := hs.length
  obtain ⟨length, hlength⟩ := Settings.exists_length hnames
  unfold compile
  rw [Recorded.result_bind_of_ok (a := s) hcontext,
    Recorded.result_bind_of_ok (a := length) hlength]
  dsimp only
  rw [Recorded.result_bind]
  refine (parts_agree hs hplain).failsBehind
    fun (blueprint, templates) used ⟨hmeets, named, htemplate⟩ => ?_
  rw [Recorded.result_bind_of_ok htemplate, Recorded.result_bind, rootTexts_result, hunshown]
  rfl

/-! ### Clean pipelines -/

/-- Where texts are whole, whatever gets into a workflow from them is plain. -/
theorem plainThroughout_of_isClean (h : c.Throughout Component.IsClean) : PlainThroughout c := by
  intro path here hhere
  obtain ⟨hname, hcontainer, hgraph⟩ := (h.at? hhere).self
  refine ⟨hname, fun container himpl line hline => ?_,
    fun g himpl id task component htask hspec _ _ name _ text htext =>
      (hgraph g himpl).literal htask hspec name text htext⟩
  have hwhole := hcontainer container himpl
  rw [Component.commandLine, himpl] at hline
  exact launch_plain hwhole himpl (commandLine_whole
    (x := { component := here.component, arguments := here.arguments, accessors }) hwhole
    accessors_keepWhole himpl hline)

/-- **A flat pipeline whose texts are whole has a workflow when it passes the check.**  Otherwise
    it fails like the check does, unless a constant is passed as a file before that. -/
theorem compile_verdict {context : Context} (hcontext : context.settings = .ok s)
    (hs : Complete s) (hflat : c.IsFlat g) (hwhole : g.IsWhole) {arguments : Keyed Value}
    (hshown : (arguments.all fun entry => entry.2.isShown) = true) :
    Agree (.verdict True) (fun _ _ => True) (compile context c arguments).result
      (c.check g arguments) := by
  rw [Component.check, ← needs_of_isFlat hflat]
  exact compile_checked hcontext hs (plainThroughout_of_isClean (hflat.isClean hwhole)) hshown

end PipelineCompiler.Argo
