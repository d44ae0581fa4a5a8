import PipelineCompiler.Proofs.Graph.Order
import PipelineCompiler.Proofs.Vertex.Binding
import PipelineCompiler.Proofs.Vertex.Constant
import PipelineCompiler.Proofs.Warnings

namespace PipelineCompiler.Vertex

/-!
# Warnings of a compilation

* `Step`, `step?` — a task of a graph with what it runs and uses;
* `Step.warnings` — the warnings that a task deserves;
* `addTask_warnings`, `compileTasks_warnings` — those are the warnings that are noted for tasks;
* `rootWarnings`, `compile_warnings` — the warnings of a whole compilation.

A warning is noted for every input that is used and that nothing is given for, and for every text
that is used as a number and is none.
-/

variable {P : String → Prop} {s : Settings}

/-! ### Steps -/

/-- A task of a graph, whose component is a container, with its command line. -/
structure Step where
  id : String
  arguments : Keyed Argument
  component : Component
  line : CommandLine

/-- A task that is bound, with its command line. -/
def Binder.step (b : Binder) (line : CommandLine) : Step :=
  { id := b.id, arguments := b.arguments, component := b.component, line }

/-- What a task of a graph runs and uses. -/
def step? (inputs : List String) (g : Graph) (id : String) : Option Step :=
  (g.task? id).bind fun task => task.reference.spec.bind fun component =>
    match component.implementation with
    | .graph _ => none
    | .container container =>
      let binder : Binder :=
        { id, component, arguments := task.arguments, pipelineParameters := inputs }
      (binder.commandLine container).toOption.map binder.step

/-- A task whose component is a container with a command line is a step. -/
theorem step?_eq_some {inputs : List String} {g : Graph} {id : String} {task : GraphTask}
    {component : Component} {container : Container} {line : CommandLine}
    (htask : g.task? id = some task) (hspec : task.reference.spec = some component)
    (hcontainer : component.implementation = .container container)
    (hline : Binder.commandLine
      { id, component, arguments := task.arguments, pipelineParameters := inputs } container =
        .ok line) :
    step? inputs g id = some { id, arguments := task.arguments, component, line } := by
  unfold step?
  rw [htask, Option.bind_some, hspec, Option.bind_some, hcontainer]
  dsimp only
  rw [hline]
  rfl

namespace Step

/-- The argument that counts for an input. -/
def argument (t : Step) (name : String) : Argument := t.component.argumentFor t.arguments name

/-- The declared type of an input. -/
def type (t : Step) (name : String) : Value := typeOf t.component name

/-- The warnings for an input that nothing is given for. -/
def absences (t : Step) (name : String) : List (String × String) :=
  t.component.absences t.arguments t.id name

/-- The warnings for a text that is used as a number and is none. -/
def misreadings (t : Step) (name : String) : List (String × String) :=
  match t.argument name with
  | .literal text =>
    if isMisread (t.type name) text then
      [(t.id, s!"Value \"{text}\" is not a valid {(PrimitiveType.ofType (t.type name)).name}" ++
        "; passing it as a string")]
    else []
  | _ => []

/-- The warnings that a task deserves: for the inputs that are used as parameters, and for those
    that are used as files. -/
def warnings (t : Step) : List (String × String) :=
  t.line.valueInputs.flatMap (fun name => t.absences name ++ t.misreadings name) ++
    t.line.pathInputs.flatMap t.absences

end Step

/-! ### Silent steps -/

/-- Executors are added without warnings. -/
theorem addExecutor_silent (d : Draft) (stem : Except Failure String) (launch : Launch) :
    (d.addExecutor s stem launch).IsSilent :=
  .bind (Registry.intern_silent _ _ _ _) fun _ => rfl

/-- Components are added without warnings. -/
theorem addComponent_silent (d : Draft) (stem : Except Failure String) (place : String)
    (entry : ComponentEntry) : (d.addComponent s stem place entry).IsSilent :=
  .bind (Registry.intern_silent _ _ _ _) fun _ => .ite (.bind rfl fun _ => rfl) rfl

/-- Conversions are made without warnings. -/
theorem convert_silent (d : Draft) (source : ParameterSource) (stem place : String) :
    (d.convert s source stem place).IsSilent :=
  .bind rfl fun _ => .bind (addExecutor_silent _ _ _) fun _ =>
    .bind (addComponent_silent _ _ _ _) fun _ => .bind rfl fun _ =>
      .bind (Registry.intern_silent _ _ _ _) fun _ => .ite (.bind rfl fun _ => rfl) rfl

/-- Input artifacts are bound without warnings. -/
theorem artifactFor_silent (d : Draft) (parameters : List String) (place : String)
    (argument : Argument) : (d.artifactFor s parameters place argument).IsSilent := by
  cases argument with
  | literal text => exact convert_silent _ _ _ _
  | graphInput input declared => exact .ite (convert_silent _ _ _ _) rfl
  | taskOutput source => exact .bind rfl fun _ => rfl

/-! ### Tasks -/

variable {d d' : Draft} {b : Binder}

/-- The warnings for an input parameter, besides the one for an argument that is missing. -/
theorem parameterFor_warnings (t : Step) {name : String} {source : ParameterSource}
    (h : (d.parameterFor (t.type name) t.id (t.argument name)).Yields P (source, d')) :
    (d.parameterFor (t.type name) t.id (t.argument name)).warnings = t.misreadings name := by
  unfold Step.misreadings
  cases hargument : t.argument name with
  | literal text =>
    unfold Draft.parameterFor
    dsimp only
    rw [readOr_misread]
    split
    · rfl
    · rfl
  | graphInput input declared => rfl
  | taskOutput output =>
    rw [hargument] at h
    obtain ⟨task, -, -, hwarnings⟩ := Recorded.yields_bind_warnings h
    exact hwarnings

/-- The warnings for the inputs that are used as parameters. -/
theorem bindParameters_warnings {names : List String} {line : CommandLine}
    {bindings : Keyed ParameterSource} (h : (b.bindParameters names d).Yields P (bindings, d')) :
    (b.bindParameters names d).warnings =
      names.flatMap fun name => (b.step line).absences name ++ (b.step line).misreadings name := by
  -- By induction on the inputs: each warns when it has no argument, and when its constant does not
  -- fit its type.
  induction names generalizing d d' bindings with
  | nil => rfl
  | cons name rest ih =>
    unfold Binder.bindParameters at h ⊢
    obtain ⟨input, hinput, h, hwarnings₁⟩ := Recorded.yields_bind_silent h rfl
    have hinput := fetchInput_eq_ok.mp (Recorded.yields_lift.mp hinput)
    obtain ⟨argument, hargument, h, hwarnings₂⟩ := Recorded.yields_bind_warnings h
    obtain rfl := argument_spec hinput hargument
    obtain ⟨⟨source, d₁⟩, hsource, h, hwarnings₃⟩ := Recorded.yields_bind_warnings h
    obtain ⟨⟨others, d₂⟩, hrest, -, hwarnings₄⟩ := Recorded.yields_bind_warnings h
    have htype : input.type = typeOf b.component name := by
      rw [typeOf, hinput]
      rfl
    have hmisreadings : (d.parameterFor input.type b.id
        (b.component.argumentFor b.arguments name)).warnings = (b.step line).misreadings name := by
      rw [htype] at hsource ⊢
      exact parameterFor_warnings (b.step line) hsource
    rw [hwarnings₁, hwarnings₂, argument_warnings hinput hargument, hwarnings₃, hmisreadings,
      hwarnings₄, ih hrest, Recorded.warnings_pure, List.append_nil, List.flatMap_cons,
      List.append_assoc]
    rfl

/-- The warnings for the inputs that are used as files. -/
theorem bindArtifacts_warnings {names : List String} {line : CommandLine}
    {bindings : Keyed ArtifactSource} (h : (b.bindArtifacts s names d).Yields P (bindings, d')) :
    (b.bindArtifacts s names d).warnings = names.flatMap (b.step line).absences := by
  induction names generalizing d d' bindings with
  | nil => rfl
  | cons name rest ih =>
    unfold Binder.bindArtifacts at h ⊢
    obtain ⟨input, hinput, h, hwarnings₁⟩ := Recorded.yields_bind_silent h rfl
    have hinput := fetchInput_eq_ok.mp (Recorded.yields_lift.mp hinput)
    obtain ⟨argument, hargument, h, hwarnings₂⟩ := Recorded.yields_bind_warnings h
    obtain ⟨⟨source, d₁⟩, -, h, hwarnings₃⟩ :=
      Recorded.yields_bind_silent h (artifactFor_silent _ _ _ _)
    obtain ⟨⟨others, d₂⟩, hrest, -, hwarnings₄⟩ := Recorded.yields_bind_warnings h
    rw [hwarnings₁, hwarnings₂, argument_warnings hinput hargument, hwarnings₃, hwarnings₄,
      ih hrest, Recorded.warnings_pure, List.append_nil, List.flatMap_cons]
    rfl

/-- **The warnings for a task** are those that it deserves. -/
theorem addTask_warnings {container : Container} (h : (addTask s b container d).Yields P d') :
    ∃ line, b.commandLine container = .ok line ∧
      (addTask s b container d).warnings = (b.step line).warnings := by
  unfold addTask at h ⊢
  obtain ⟨line, hline, h, hwarnings₁⟩ := Recorded.yields_bind_silent h rfl
  obtain ⟨⟨executor, d₁⟩, -, h, hwarnings₂⟩ :=
    Recorded.yields_bind_silent h (addExecutor_silent _ _ _)
  obtain ⟨types, -, h, hwarnings₃⟩ := Recorded.yields_bind_silent h rfl
  obtain ⟨⟨entry, d₂⟩, -, h, hwarnings₄⟩ :=
    Recorded.yields_bind_silent h (addComponent_silent _ _ _ _)
  obtain ⟨⟨parameters, d₃⟩, hparameters, h, hwarnings₅⟩ :=
    Recorded.yields_bind_warnings h
  obtain ⟨⟨artifacts, d₄⟩, hartifacts, h, hwarnings₆⟩ := Recorded.yields_bind_warnings h
  -- nothing is warned of once the inputs are bound
  obtain ⟨caching, -, h, hwarnings₇⟩ := Recorded.yields_bind_silent h rfl
  obtain ⟨name, -, h, hwarnings₈⟩ := Recorded.yields_bind_silent h rfl
  refine ⟨line, Recorded.yields_lift.mp hline, ?_⟩
  rw [hwarnings₁, hwarnings₂, hwarnings₃, hwarnings₄, hwarnings₅,
    bindParameters_warnings hparameters, hwarnings₆, bindArtifacts_warnings hartifacts,
      hwarnings₇, hwarnings₈, Step.warnings]
  exact congrArg (_ ++ ·) (List.append_nil _)

/-- The warnings for a task of a graph, which is a container. -/
theorem compileTask_warnings {inputs : List String} {g : Graph} {id : String} {task : GraphTask}
    (htask : g.task? id = some task) (h : (compileTask s inputs id task d).Yields P d') :
    ∃ t, step? inputs g id = some t ∧
      (compileTask s inputs id task d).warnings = t.warnings := by
  unfold compileTask at h ⊢
  split at h
  next => exact absurd h Recorded.not_yields_throw
  next component hspec =>
    split at h
    next => exact absurd h Recorded.not_yields_throw
    next container hcontainer =>
      obtain ⟨line, hline, hwarnings⟩ := addTask_warnings h
      exact ⟨_, step?_eq_some htask hspec hcontainer hline, hwarnings⟩

/-- The warnings for a task of a graph, if it is one that can be compiled. -/
def taskWarnings (inputs : List String) (g : Graph) (id : String) : List (String × String) :=
  ((step? inputs g id).map Step.warnings).getD []

/-- **The warnings for the tasks of a graph** come in their order. -/
theorem compileTasks_warnings {inputs : List String} {g : Graph} {order : List String}
    (h : (compileTasks s g inputs order d).Yields P d') :
    (compileTasks s g inputs order d).warnings = order.flatMap (taskWarnings inputs g) := by
  induction order generalizing d with
  | nil => rfl
  | cons id rest ih =>
    unfold compileTasks at h ⊢
    obtain ⟨task, htask, h, hwarnings₁⟩ := Recorded.yields_bind_silent h rfl
    have htask : g.task? id = some task := fetch_eq_ok.mp (Recorded.yields_lift.mp htask)
    obtain ⟨d₁, hd₁, h, hwarnings₂⟩ := Recorded.yields_bind_warnings h
    obtain ⟨t, hstep, hwarnings⟩ := compileTask_warnings htask (Recorded.yields_within.mp hd₁)
    rw [hwarnings₁, hwarnings₂, ih h, Recorded.warnings_within, hwarnings, List.flatMap_cons,
      taskWarnings, hstep]
    rfl

/-! ### Whole pipelines -/

/-- The warnings for the values of an input of a pipeline. -/
def rootMisreadings (c : Component) (texts : Keyed String) (name : String) :
    List (String × String) :=
  if isMisread (typeOf c name) (c.rootTextFor texts name) then
    [("", s!"Pipeline argument \"{name}\"=\"{c.rootTextFor texts name}\" is not a valid " ++
      s!"{(PrimitiveType.ofType (typeOf c name)).name}; passing it as a string")]
  else []

/-- The warnings for the inputs of a pipeline that tasks use. -/
def rootWarnings (c : Component) (texts : Keyed String) (names : List String) :
    List (String × String) :=
  names.flatMap fun name => c.absences texts "" name ++ rootMisreadings c texts name

/-- The values of the inputs of a pipeline leave these warnings. -/
theorem rootConstants_warnings {c : Component} {texts : Keyed String} {names : List String}
    {constants : Keyed Constant}
    (h : (rootConstants c texts (declaredTypes c names)).Yields P constants) :
    (rootConstants c texts (declaredTypes c names)).warnings = rootWarnings c texts names := by
  -- By induction on the names.
  induction names generalizing constants with
  | nil => rfl
  | cons name rest ih =>
    rw [declaredTypes, List.map_cons] at h ⊢
    unfold rootConstants at h ⊢
    obtain ⟨input, hinput, h, hwarnings₁⟩ := Recorded.yields_bind_silent h rfl
    have hinput := fetchInput_eq_ok.mp (Recorded.yields_lift.mp hinput)
    obtain ⟨text, htext, h, hwarnings₂⟩ := Recorded.yields_bind_warnings h
    obtain rfl := rootText_spec hinput htext
    rw [hwarnings₁, hwarnings₂, rootText_warnings hinput htext, rootWarnings, List.flatMap_cons,
      List.append_assoc]
    congr 1
    dsimp only at h ⊢
    obtain ⟨h, hwarnings₃⟩ := Recorded.yields_warn_when h
    obtain ⟨others, hrest, -, hwarnings₄⟩ := Recorded.yields_bind_warnings h
    rw [hwarnings₃, readOr_misread, hwarnings₄, Recorded.warnings_pure, List.append_nil]
    exact congrArg (_ ++ ·) (ih hrest)

/-- The warnings for the tasks of a pipeline. -/
theorem compileGraph_warnings {c : Component} {g : Graph} {root : Root}
    (h : (compileGraph s c g).Yields P (root, d)) :
    ∃ order, g.order c.inputNames = .ok order ∧
      root.parameters = declaredTypes c d.parameters ∧
      (compileGraph s c g).warnings = order.flatMap (taskWarnings c.inputNames g) := by
  unfold compileGraph at h ⊢
  obtain ⟨order, horder, h, hwarnings₁⟩ := Recorded.yields_bind_silent h rfl
  dsimp only at h hwarnings₁
  obtain ⟨h, hwarnings₂⟩ := Recorded.yields_unless_silent h rfl
  obtain ⟨start, -, h, hwarnings₃⟩ := Recorded.yields_bind_silent h rfl
  obtain ⟨d', hrun, h, hwarnings₄⟩ := Recorded.yields_bind_warnings h
  obtain ⟨parameters, hparameters, h, hwarnings₅⟩ := Recorded.yields_bind_silent h rfl
  obtain ⟨outputs, -, h, hwarnings₆⟩ := Recorded.yields_bind_silent h rfl
  obtain ⟨rfl, rfl⟩ := Recorded.yields_pure_pair h
  refine ⟨order, Recorded.yields_lift.mp horder,
    typesOf_spec (Recorded.yields_lift.mp hparameters), ?_⟩
  -- All steps but the tasks are silent.
  rw [hwarnings₁, hwarnings₂, hwarnings₃, hwarnings₄,
    compileTasks_warnings hrun, hwarnings₅, hwarnings₆, Recorded.warnings_pure, List.append_nil]

/-- **The warnings of a whole compilation**: those for the tasks in their order, those for
    arguments of the caller that no input takes, and those for the inputs that tasks use. -/
theorem compile_warnings {context : Context} {c : Component} {arguments : Keyed Value}
    {outputDirectory contextName : String} {job : Job}
    (h : (compile context c arguments outputDirectory contextName).Yields P job) :
    ∃ g order, asGraph c = .ok g ∧ g.order c.inputNames = .ok order ∧
      (compile context c arguments outputDirectory contextName).warnings =
        order.flatMap (taskWarnings c.inputNames g) ++ c.strangers arguments ++
          rootWarnings c (c.givenTexts arguments) (Keyed.keys job.root.parameters) := by
  unfold compile at h ⊢
  obtain ⟨s, -, h, hwarnings₁⟩ := Recorded.yields_bind_silent h rfl
  obtain ⟨limit, -, h, hwarnings₂⟩ := Recorded.yields_bind_silent h rfl
  obtain ⟨g, hg, h, hwarnings₃⟩ := Recorded.yields_bind_silent h rfl
  obtain ⟨⟨root, d⟩, hgraph, h, hwarnings₄⟩ := Recorded.yields_bind_warnings h
  obtain ⟨order, horder, htypes, htasks⟩ := compileGraph_warnings hgraph
  obtain ⟨limit', -, h, hwarnings₅⟩ := Recorded.yields_bind_silent h rfl
  obtain ⟨sdkVersion, -, h, hwarnings₆⟩ := Recorded.yields_bind_silent h rfl
  obtain ⟨schemaVersion, -, h, hwarnings₇⟩ := Recorded.yields_bind_silent h rfl
  obtain ⟨texts, htexts, h, hwarnings₈⟩ := Recorded.yields_bind_warnings h
  obtain ⟨rfl, -⟩ := rootTexts_spec htexts
  obtain ⟨parameters, hparameters, h, hwarnings₉⟩ := Recorded.yields_bind_warnings h
  rw [htypes] at hparameters
  obtain ⟨u, -, h, hwarnings₁₀⟩ := Recorded.yields_bind_silent h rfl
  obtain rfl := Recorded.yields_pure.mp h
  refine ⟨g, order, Recorded.yields_lift.mp hg, horder, ?_⟩
  -- all other steps are plain
  rw [hwarnings₁, hwarnings₂, hwarnings₃, hwarnings₄, htasks, hwarnings₅,
    hwarnings₆, hwarnings₇,
    hwarnings₈, rootTexts_warnings htexts, hwarnings₉, htypes,
      rootConstants_warnings hparameters,
    hwarnings₁₀, Recorded.warnings_pure, List.append_nil, keys_declaredTypes, List.append_assoc]

end PipelineCompiler.Vertex
