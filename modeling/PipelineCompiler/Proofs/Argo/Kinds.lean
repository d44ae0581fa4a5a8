import PipelineCompiler.Proofs.Argo.Failing
import PipelineCompiler.Proofs.Argo.Made
import PipelineCompiler.Proofs.Argo.Origin

namespace PipelineCompiler.Argo

/-!
# Kinds decide what is converted and what is refused

* `InputKind.Tells` — a kind tells where data comes from;
* `ValueServed`, `GraphServed`, `KindsServed` — what this comes to in a workflow: outputs of tasks
  reach containers as parameters through conversions, and nothing else is converted;
* `GraphMade.served` — that is so in every graph;
* `ConstantRefused` — what it comes to where a constant is refused;
* `compile_tracks_kinds` — for every pipeline, whether there is a workflow or not;
* `samplePipelines_track_kinds` — a pipeline with a workflow, and one with a refusal.
-/

variable {P : String → Prop} {s : Settings} {c : Component}

/-! ### What kinds tell -/

/-- The kind of an input tells where its data comes from. -/
structure InputKind.Tells (kind : InputKind) (origin : Origin) : Prop where
  any : kind = .any ↔ ∃ name, origin = .pipelineInput name
  artifact : kind = .artifact ↔ ∃ path name, origin = .output path name
  parameter : kind = .parameter ↔ ∃ text, origin = .constant text

/-- The kind of data with an origin tells this origin. -/
theorem tells_ofOrigin (origin : Origin) : (InputKind.ofOrigin origin).Tells origin := by
  cases origin with
  | constant | output | pipelineInput => constructor <;> simp [InputKind.ofOrigin]

/-! ### Workflows -/

/-- How data with an origin gets to an input that is used as a parameter, in a graph whose tasks
    have some names: outputs of tasks, and nothing else, are converted.  The conversion is one of
    what the argument refers to, as far as digests tell. -/
structure ValueServed (P : String → Prop) (names : Keyed String) (tasks : Keyed DagTask)
    (argument : Argument) (origin : Origin) (reference : Reference) : Prop where
  converted : (∃ task name, reference = .taskParameter task name) ↔
    ∃ path name, origin = .output path name
  converts : ∀ task name, reference = .taskParameter task name → name = conversionOutput ∧
    ∃ template found source, Keyed.find? tasks task = some (.conversion template found) ∧
      sourceOf? names argument = some source ∧ (Separates P → found.text = source.text)

/-- A container in the graph at a path: the inputs that its command line uses as parameters are
    served, and those that it uses as files come from somewhere. -/
def ContainerKinds (P : String → Prop) (c : Component) (path : List String) (names : Keyed String)
    (tasks : Keyed DagTask) (here : Placed) (parameters : List (String × Reference)) : Prop :=
  ∃ line, here.component.commandLine here.arguments accessors = .ok line ∧
    List.Forall₂ (fun input binding => binding.1 = sanitizeIoName input ∧ ∃ origin,
      c.origin? path input = some origin ∧ ValueServed P names tasks
        (here.component.argumentFor here.arguments input) origin binding.2)
      line.valueInputs parameters ∧
    ∀ input ∈ line.pathInputs, ∃ origin, c.origin? path input = some origin ∧
      ∀ text, origin ≠ .constant text

/-- What kinds come to in the graph at a path, the tasks of which have some names. -/
structure GraphServed (P : String → Prop) (c : Component) (path : List String)
    (names : Keyed String) (tasks : Keyed DagTask) : Prop where
  containers : ∀ id here container, c.at? (id :: path) = some here →
    here.component.implementation = .container container →
    ∃ name template parameters artifacts, Keyed.find? names id = some name ∧
      Keyed.find? tasks name = some (.step template parameters artifacts) ∧
      ContainerKinds P c (id :: path) names tasks here parameters
  /-- Nothing is converted for a graph. -/
  graphs : ∀ id here g, c.at? (id :: path) = some here →
    here.component.implementation = .graph g →
    ∃ name template parameters artifacts, Keyed.find? names id = some name ∧
      Keyed.find? tasks name = some (.step template parameters artifacts) ∧
      ∀ binding ∈ parameters ++ artifacts, ∀ task output,
        binding.2 ≠ .taskParameter task output

/-- What kinds come to in a workflow: the graphs of the pipeline are served, and their templates
    are there as far as digests tell; and no other graphs are there. -/
structure KindsServed (P : String → Prop) (s : Settings) (c : Component) (w : Workflow) :
    Prop where
  everywhere : ∀ path around g, c.at? path = some around →
    around.component.implementation = .graph g →
    (∃ kinds templates, Visits s c path around kinds templates) ∧
    ∃ names parameters artifacts outputs tasks,
      emittedTasks? s around.component = some names ∧ GraphServed P c path names tasks ∧
      (Separates P → ∃ entry ∈ w.templates,
        SameRecord Template.record entry.2 (.dag parameters artifacts outputs tasks))
  nowhereElse : ∀ name parameters artifacts outputs tasks,
    Keyed.find? w.templates name = some (.dag parameters artifacts outputs tasks) →
    ∃ path around names, c.at? path = some around ∧
      emittedTasks? s around.component = some names ∧ GraphServed P c path names tasks
  /-- A pipeline that is a container uses its own inputs. -/
  root : ∀ container, c.implementation = .container container → ∃ line,
    c.commandLine (rootArguments c) accessors = .ok line ∧
      ∀ input ∈ line.inputs, c.origin? [] input = some (.pipelineInput input)

section Graphs

variable {final : Keyed Template} {path order : List String} {around : Placed} {g : Graph}
  {d : Draft} {blueprint : Blueprint}

/-- The names of the tasks of a graph. -/
theorem GraphMade.emitted (h : GraphMade P s c final path around g order d blueprint)
    (himpl : around.component.implementation = .graph g) :
    emittedTasks? s around.component = some d.scope.taskNames := by
  rw [emittedTasks?, graph?_eq_some.mpr himpl, Option.bind_eq_bind, Option.bind_some, h.ordered,
    h.taskNames]
  rfl

/-- Inputs that a graph reads as parameters do not come from outputs of tasks, and those that it
    reads as files are no constants. -/
theorem Makes.read (h : Makes P s c final path around blueprint)
    (himpl : around.component.implementation = .graph g) {name : String}
    (hname : name ∈ around.component.inputNames) {origin : Origin}
    (horigin : c.origin? path name = some origin) :
    (name ∈ blueprint.parameters → InputKind.ofOrigin origin ≠ .artifact) ∧
      (name ∈ blueprint.artifacts → InputKind.ofOrigin origin ≠ .parameter) := by
  obtain ⟨order, d, hmade⟩ := h.graph himpl
  obtain ⟨origin', horigin', hfind⟩ := hmade.kinds name hname
  -- The draft lists only inputs that may be read in this way.
  obtain rfl := Option.some.inj (horigin.symm.trans horigin')
  constructor
  · intro hread
    obtain ⟨kind, hkind, hne⟩ := hmade.tidy.parameters name (hmade.parameters ▸ hread)
    exact Option.some.inj (hfind.symm.trans hkind) ▸ hne
  · intro hread
    obtain ⟨kind, hkind, hne⟩ := hmade.tidy.artifacts name (hmade.artifacts ▸ hread)
    exact Option.some.inj (hfind.symm.trans hkind) ▸ hne

/-- The binding of an input that is used as a parameter, and the origin of the input. -/
theorem Serves.served {argument : Argument} {reference : Reference}
    (h : Serves P d argument reference) {origin : Origin}
    (hkind : d.scope.kindOf (some argument) = .ok (.ofOrigin origin)) :
    ValueServed P d.scope.taskNames d.scope.tasks.entries argument origin reference where
  converted := by
    rw [h.converted_iff, hkind, Except.ok.injEq]
    exact (tells_ofOrigin origin).artifact
  converts := by
    rintro task name rfl
    cases h with
    | converted kind converts found same => exact ⟨rfl, _, _, _, found, converts, same⟩

/-- What stands at a path within the graph is a task of it, and was added to it. -/
theorem GraphMade.addedAt (h : GraphMade P s c final path around g order d blueprint)
    (haround : c.at? path = some around) (himpl : around.component.implementation = .graph g)
    {id : String} {here : Placed} (hhere : c.at? (id :: path) = some here) :
    ∃ task component inner place, g.task? id = some task ∧
      here = { component, arguments := task.arguments } ∧
      Makes P s c final (id :: path) here inner ∧
      Added P d id { component, arguments := task.arguments, place } inner := by
  -- What is looked up in the pipeline and what was compiled of it are the same task.
  obtain ⟨component, arguments⟩ := here
  obtain ⟨around', g', task, haround', hg, htask, hspec, harguments⟩ := at?_cons.mp hhere
  obtain rfl := Option.some.inj (haround.symm.trans haround')
  obtain rfl : g = g' := Implementation.graph.inj (himpl.symm.trans hg)
  obtain ⟨component', inner, place, hspec', hmakes, hadded⟩ := h.tasks id task htask
  obtain rfl := Option.some.inj (hspec.symm.trans hspec')
  obtain rfl : arguments = task.arguments := harguments
  exact ⟨task, component, inner, place, htask, rfl, hmakes, hadded⟩

/-- **Kinds decide what is converted**, in every graph. -/
theorem GraphMade.served (h : GraphMade P s c final path around g order d blueprint)
    (haround : c.at? path = some around) (himpl : around.component.implementation = .graph g) :
    GraphServed P c path d.scope.taskNames d.scope.tasks.entries := by
  have hplanned := order_planned h.ordered
  constructor
  · intro id here container hhere hcontainer
    obtain ⟨task, component, inner, place, hfound, rfl, hmakes, hadded⟩ :=
      h.addedAt haround himpl hhere
    obtain ⟨name, template, t, parameters, artifacts, hname, hstep, -, -, hvalues, hfiles⟩ :=
      hadded.exists_step
    obtain ⟨line, hline, hparameters, hartifacts⟩ := hmakes.container hcontainer
    refine ⟨name, template, parameters, artifacts, hname, hstep, line, hline, ?_, ?_⟩
    · rw [← hparameters]
      refine List.Forall₂.imp (fun input binding ⟨_, hlegal, hserves⟩ =>
        ⟨hlegal, ?_⟩) hvalues
      obtain ⟨kind, hkind⟩ := hserves.exists_kind
      obtain ⟨origin, horigin, rfl⟩ := h.kinds.argument rfl hplanned hfound hhere hkind
      exact ⟨origin, horigin, hserves.served hkind⟩
    -- an input of kind `parameter` is not bound as a file
    · intro input hinput
      rw [← hartifacts] at hinput
      obtain ⟨binding, -, -, -, hbinds⟩ := exists_right_of_mem hfiles hinput
      obtain ⟨kind, hkind, hne⟩ := hbinds.exists_kind
      obtain ⟨origin, horigin, rfl⟩ := h.kinds.argument rfl hplanned hfound hhere hkind
      exact ⟨origin, horigin, fun text htext =>
        hne ((tells_ofOrigin origin).parameter.mpr ⟨text, htext⟩)⟩
  · intro id here inner hhere hgraph
    obtain ⟨task, component, blueprint', place, hfound, rfl, hmakes, hadded⟩ :=
      h.addedAt haround himpl hhere
    obtain ⟨name, template, t, parameters, artifacts, hname, hstep, -, -, hvalues, hfiles⟩ :=
      hadded.exists_step
    refine ⟨name, template, parameters, artifacts, hname, hstep, fun binding hbinding => ?_⟩
    rcases List.mem_append.mp hbinding with hbinding | hbinding
    -- what would be converted here is read as an artifact by the inner graph
    · obtain ⟨input, hinput, hdeclared, -, hserves⟩ := exists_left_of_mem hvalues hbinding
      obtain ⟨kind, hkind⟩ := hserves.exists_kind
      obtain ⟨origin, horigin, rfl⟩ := h.kinds.argument rfl hplanned hfound hhere hkind
      have hne := (hmakes.read hgraph hdeclared horigin).1 hinput
      intro conversion output heq
      have hartifact := hserves.converted_iff.mp ⟨conversion, output, heq⟩
      exact hne (Except.ok.inj (hkind.symm.trans hartifact))
    · obtain ⟨input, -, -, -, hbinds⟩ := exists_left_of_mem hfiles hbinding
      exact hbinds.ne_taskParameter

end Graphs

/-- **Kinds decide what is converted**, in every workflow. -/
theorem PipelineMade.served {w : Workflow} {root : Blueprint} (h : PipelineMade P s c w root) :
    KindsServed P s c w where
  everywhere := by
    intro path around g haround hg
    obtain ⟨blueprint, hmakes, hfound⟩ := h.everywhere haround
    obtain ⟨order, d, hmade⟩ := hmakes.graph hg
    obtain ⟨outputs, -, htemplate⟩ := hmade.template
    obtain ⟨kinds, templates, -, hvisits, -⟩ := hmakes.exists_made
    exact ⟨⟨kinds, templates, hvisits⟩, _, _, _, _, _, hmade.emitted hg,
      hmade.served haround hg, htemplate ▸ hfound⟩
  nowhereElse := by
    intro name parameters artifacts outputs tasks hfind
    -- A template with tasks is no conversion and no container, so it belongs to a graph of the
    -- pipeline.
    rcases h.templates _ (Keyed.mem_of_find? hfind) with hconversion | ⟨path, here, blueprint,
      hmakes, heq⟩
    · have houtline := conversionTemplate_outline hconversion
      cases houtline
    · cases himpl : here.component.implementation with
      | container container =>
        obtain ⟨_, _, _, -, -, hyields, -⟩ := hmakes.exists_made
        obtain ⟨line, -, -, -, houtline⟩ :=
          containerBlueprint_spec (container_runs himpl hyields).2
        rw [← heq] at houtline
        cases houtline
      | graph g =>
        obtain ⟨order, d, hmade⟩ := hmakes.graph himpl
        obtain ⟨_, -, htemplate⟩ := hmade.template
        obtain ⟨-, -, -, rfl⟩ := Template.dag.inj (heq.trans htemplate)
        exact ⟨path, here, _, hmakes.place, hmade.emitted himpl,
          hmade.served hmakes.place himpl⟩
  root := by
    intro container himpl
    obtain ⟨line, hline, -, -⟩ := h.makes.container himpl
    refine ⟨line, hline, fun input hinput => origin?_root ?_⟩
    rw [Component.commandLine, himpl] at hline
    exact commandLine_declared hline input hinput

/-! ### Refusals -/

/-- A constant was refused: the path leads to a container whose command line uses an input as a
    file, and the data of this input is a constant. -/
def ConstantRefused (c : Component) (e : CompilationError) : Prop :=
  ∃ input here container line text, e.cause = .constantArtifact input ∧
    c.at? e.taskPath.reverse = some here ∧
    here.component.implementation = .container container ∧
    here.component.commandLine here.arguments accessors = .ok line ∧
    input ∈ line.pathInputs ∧ c.origin? e.taskPath.reverse input = some (.constant text)

/-- **Where a constant is refused**: nowhere but at a container that uses it as a file.  An argument
    for it is not missing there. -/
theorem Raises.refused {path : List String} {e : Failure} (h : Raises s c path e)
    (hconstant : ¬ e.IsOther) :
    ∃ input, e = .ofCause (.constantArtifact input) ∧ ∃ here container line text,
      c.at? path = some here ∧ here.component.implementation = .container container ∧
      here.component.commandLine here.arguments accessors = .ok line ∧
      input ∈ line.pathInputs ∧ c.origin? path input = some (.constant text) ∧
      here.component.checkInput (Keyed.has here.arguments) input = .ok () := by
  have hkind : ErrorKind.constantArtifact.IsOfInputs := trivial
  -- All places but one fail in other ways: only adding a task can refuse a constant.
  cases h with
  | container _ _ failed =>
    exact absurd (failsOnly_containerBlueprint isLenient_isOther (avoids_ofCommandLine hkind) s
      _ _ _ e failed) hconstant
  | order _ _ failed => exact absurd (avoids_order hkind _ _ e failed) hconstant
  | start _ _ _ failed =>
    exact absurd (failsOnly_start isLenient_isOther s _ _ _ e failed) hconstant
  | kinds _ _ _ _ _ failed =>
    exact absurd (failsOnly_kindsOf isLenient_isOther _ _ _ e failed) hconstant
  | outputs _ _ _ failed =>
    exact absurd (failsOnly_graphBlueprint isLenient_isOther _ _ e failed) hconstant
  | @task path before rest around kinds inner templates templates' g scope d id task component
      blueprint place _ visits begins compiled found spec kinded made failed =>
    obtain ⟨name, hname, hdeclared, rfl, hkind, hgiven⟩ := addTask_error failed hconstant
    have hvisits := Visits.task visits begins compiled found spec kinded
    obtain ⟨hnamed, -, hkinds, -⟩ := begins.runs visits.sound (Recorded.yields_true compiled)
    obtain ⟨origin, horigin, heq⟩ :=
      visits.kinds.argument hkinds begins.planned found hvisits.place hkind
    have hmakes : Makes (fun _ => True) s c templates'.entries (id :: path)
        { component, arguments := task.arguments } blueprint :=
      ⟨_, _, _, hvisits, hnamed.templates, Recorded.yields_true made, .refl _⟩
    obtain ⟨text, rfl⟩ := (tells_ofOrigin origin).parameter.mp heq.symm
    -- The component reads the input as a file, so it is a container: a graph takes each input as
    -- what it was given as.
    cases himpl : component.implementation with
    | container container =>
      obtain ⟨line, hline, -, hartifacts⟩ := hmakes.container himpl
      exact ⟨name, rfl, _, container, line, text, hvisits.place, himpl, hline,
        hartifacts ▸ hname, horigin, hgiven⟩
    | graph inner => exact absurd rfl ((hmakes.read himpl hdeclared horigin).2 hname)

/-- **Where the compilation of a pipeline fails**: apart from failures that are no compilation
    errors, and inputs of the pipeline itself that are not given, something comes up somewhere. -/
theorem compile_raises {p : Failure → Prop} (hp : IsLenient p)
    (hmissing : ∀ name, p (.ofCause (.missingArgument name))) {context : Context}
    {arguments : Keyed Value} {e : Failure} (h : (compile context c arguments).result = .error e)
    (he : ¬ p e) : ∃ s path e', context.settings = .ok s ∧ Raises s c path e' ∧
      e = e'.outward path := by
  unfold compile at h
  rcases Recorded.bind_eq_error.mp h with h | ⟨s, hs, h⟩
  · exact absurd (failsOnly_settings hp context _ h) he
  rcases Recorded.bind_eq_error.mp h with h | ⟨limit, -, h⟩
  · exact absurd (failsOnly_value hp s _ _ h) he
  -- of all the steps, only what is made of the component fails in other ways
  rcases Recorded.bind_eq_error.mp h with h | ⟨⟨blueprint, templates⟩, -, h⟩
  · obtain ⟨path, e', hraises, heq⟩ := blueprint_raises (s := s) .root h
    exact ⟨s, path, e', hs, List.append_nil path ▸ hraises, heq⟩
  rcases Recorded.bind_eq_error.mp h with h | ⟨⟨entrypoint, templates'⟩, -, h⟩
  · exact absurd (failsOnly_addTemplate hp s _ (failsOnly_nameOr hp _ _) _ _ _ h) he
  rcases Recorded.bind_eq_error.mp h with h | ⟨texts, -, h⟩
  · exact absurd (failsOnly_rootTexts hp c _ _ h) he
  rcases Recorded.bind_eq_error.mp h with h | ⟨parameters, -, h⟩
  · exact absurd (failsOnly_rootBindings hp hmissing c _ _ _ h) he
  rcases Recorded.bind_eq_error.mp h with h | ⟨artifacts, -, h⟩
  · exact absurd (failsOnly_rootBindings hp hmissing c _ _ _ h) he
  rcases Recorded.bind_eq_error.mp h with h | ⟨nameLimit, -, h⟩
  · exact absurd (failsOnly_length hp s _ _ h) he
  rcases Recorded.bind_eq_error.mp h with h | ⟨name, -, h⟩
  · exact absurd (failsOnly_nameOr hp _ _ _ h) he
  rcases Recorded.bind_eq_error.mp h with h | ⟨stated, -, h⟩
  · exact absurd (failsOnly_value hp s _ _ h) he
  rcases Recorded.bind_eq_error.mp h with h | ⟨annotations, -, h⟩
  · exact absurd (failsOnly_mappingOf hp _ _ h) he
  · cases h

/-- **The compilation of a pipeline refuses a constant** only where a container uses it as a file,
    and an argument for it is not missing there. -/
theorem compile_refuses {context : Context} {arguments : Keyed Value} {e : CompilationError}
    (h : (compile context c arguments).result = .error (.compilation e))
    (hkind : e.cause.diagnosis.kind = .constantArtifact) :
    ∃ input here container line text, e.cause = .constantArtifact input ∧
      c.at? e.taskPath.reverse = some here ∧
      here.component.implementation = .container container ∧
      here.component.commandLine here.arguments accessors = .ok line ∧
      input ∈ line.pathInputs ∧ c.origin? e.taskPath.reverse input = some (.constant text) ∧
      here.component.checkInput (Keyed.has here.arguments) input = .ok () := by
  -- A refused constant is a verdict of its own, so the traces say where it comes from.
  have hconstant : ∀ path,
    ¬ (Failure.compilation { cause := e.cause, taskPath := path }).IsOther :=
    fun path hother => hother path (by rw [Failure.verdict?, hkind])
  obtain ⟨s, path, e', -, hraises, he⟩ := compile_raises isLenient_isOther
    isOther_missingArgument h (hconstant e.taskPath)
  -- The place that failed is the innermost one, and the path leads there.
  obtain ⟨inner, rfl, hpath⟩ := Failure.eq_of_outward he.symm
  obtain ⟨input, heq, here, container, line, text, hrefused⟩ :=
    hraises.refused (hconstant inner)
  injection heq with heq
  injection heq with hcause hinner
  refine ⟨input, here, container, line, text, hcause, ?_⟩
  rw [hpath, hinner, List.append_nil, List.reverse_reverse]
  exact hrefused

/-- So it refuses only constants. -/
theorem compile_refused {context : Context} {arguments : Keyed Value} {e : CompilationError}
    (h : (compile context c arguments).result = .error (.compilation e))
    (hkind : e.cause.diagnosis.kind = .constantArtifact) : ConstantRefused c e := by
  obtain ⟨input, here, container, line, text, hcause, hhere, himpl, hline,
    hinput, horigin, -⟩ :=
    compile_refuses h hkind
  exact ⟨input, here, container, line, text, hcause, hhere, himpl, hline, hinput, horigin⟩

/-! ### Every pipeline -/

/-- **Kinds track where data comes from, and decide what is converted and what is refused.**
    Whatever the component, the arguments and the configuration are: wherever the compilation
    comes to, at any depth, the inputs are available as their origins tell; when there is a
    workflow, the outputs of tasks reach containers as parameters through conversions, nothing
    else is converted, and no constant is passed as a file; and when a constant is refused, it
    is at a container that uses it as a file. -/
theorem compile_tracks_kinds (context : Context) (c : Component) (arguments : Keyed Value) :
    (∀ s, context.settings = .ok s → ∀ path here kinds templates,
      Visits s c path here kinds templates → c.at? path = some here ∧
        ∀ name ∈ here.component.inputNames, ∃ kind origin,
          Keyed.find? kinds name = some kind ∧
          c.origin? path name = some origin ∧ kind.Tells origin) ∧
    (∀ w, (compile context c arguments).result = .ok w → ∃ s, context.settings = .ok s ∧
      KindsServed (· ∈ (compile context c arguments).digested) s c w) ∧
    (∀ e, (compile context c arguments).result = .error (.compilation e) →
      e.cause.diagnosis.kind = .constantArtifact → ConstantRefused c e) := by
  refine ⟨fun s _ path here kinds templates hvisits => ⟨hvisits.place, fun name hname => ?_⟩,
    fun w hok => ?_, fun e h hkind => compile_refused h hkind⟩
  · obtain ⟨origin, horigin, hfind⟩ := hvisits.kinds name hname
    exact ⟨_, origin, hfind, horigin, tells_ofOrigin origin⟩
  · obtain ⟨s, root, hs, hmade⟩ := compile_made (Recorded.yields_of_result hok)
    exact ⟨s, hs, hmade.served⟩

/-! ### The examples -/

/-- A pipeline that passes a constant into a graph around a container that reads a file. -/
def constantPipeline : Component :=
  let reader : Component := { sampleConsumer with
    implementation := .container { image := "a", args := some [.inputPath "x"] } }
  let graph : Component := { sampleGraph with
    implementation := .graph
      { tasks := [("r", sampleTask reader [("x", .graphInput "y" .null)])], outputValues := [] } }
  { implementation := .graph
      { tasks := [("q", sampleTask graph [("y", .literal "z")])], outputValues := [] }
    name := .str "c", description := .null, inputs := [], outputs := [], metadata := [] }

/-- The constant is refused at the container. -/
theorem constantPipeline_error :
    ∃ e, (compile sampleContext constantPipeline []).result = .error (.compilation e) ∧
      e.cause.diagnosis.kind = .constantArtifact ∧ e.taskPath = ["q", "r"] := by
  apply exists_error_of_verdict
  decide +kernel

/-- In the workflow of the first example the data is converted inside of the inner graph, and the
    second example has no workflow. -/
theorem samplePipelines_track_kinds :
    (∃ w s, (compile sampleContext samplePipeline []).result = .ok w ∧
      sampleContext.settings = .ok s ∧
      KindsServed (· ∈ (compile sampleContext samplePipeline []).digested) s
        samplePipeline w) ∧
    ∃ e, (compile sampleContext constantPipeline []).result = .error (.compilation e) ∧
      e.taskPath = ["q", "r"] ∧ ConstantRefused constantPipeline e := by
  constructor
  · obtain ⟨w, hw⟩ := samplePipeline_result
    obtain ⟨s, hs, hserved⟩ := (compile_tracks_kinds sampleContext samplePipeline []).2.1 w hw
    exact ⟨w, s, hw, hs, hserved⟩
  · obtain ⟨e, he, hkind, hpath⟩ := constantPipeline_error
    exact ⟨e, he, hpath,
      (compile_tracks_kinds sampleContext constantPipeline []).2.2 e he hkind⟩

end PipelineCompiler.Argo
