import PipelineCompiler.Proofs.CommandLine
import PipelineCompiler.Proofs.Component.Rearranged
import PipelineCompiler.Vertex.Compile

namespace PipelineCompiler.Vertex

/-!
# Jobs of components in another order

A job does not depend on the order in which tasks and arguments are written.

* `addTask_congr`, `compileTask_congr` — a task becomes part of a draft in the same way;
* `compileGraph_rearranged` — graphs have the same parts of a job;
* `compile_agrees` — pipelines have the same job.
-/

variable {s : Settings}

/-! ### One task -/

/-- The inputs that get parameters are looked up. -/
theorem parameterInputs_congr {c c' : Component} {arguments arguments' : Keyed Argument}
    (h : arguments.Same arguments') (hinputs : c.inputNames = c'.inputNames)
    (graphParameters : List String) :
    c.parameterInputs arguments graphParameters =
      c'.parameterInputs arguments' graphParameters := by
  simp only [Component.parameterInputs, hinputs, h _]

/-- **A task is added in the same way**, whatever the order of its arguments. -/
theorem addTask_congr {id : String} {component : Component} {arguments arguments' : Keyed Argument}
    (h : arguments.Same arguments') (pipelineParameters : List String) (container : Container)
    (d : Draft) :
    addTask s { id, component, arguments, pipelineParameters } container d =
      addTask s { id, component, arguments := arguments', pipelineParameters } container d := by
  -- The command line, the bindings and the types are all found by name, whatever the order of the
  -- arguments is.
  have hline : Binder.commandLine { id, component, arguments, pipelineParameters } container =
      Binder.commandLine { id, component, arguments := arguments', pipelineParameters }
        container := by
    unfold Binder.commandLine
    dsimp only
    rw [← parameterInputs_congr h rfl]
    exact (commandLine_congr (x := {
      component, arguments, accessors
      parameters := some (component.parameterInputs arguments pipelineParameters) }) h
        container).symm
  have hargument : ∀ input : InputSpec,
    input.argument arguments id = input.argument arguments' id :=
    fun input => by rw [InputSpec.argument, InputSpec.argument, h input.name]
  have hparameters : ∀ names d,
      Binder.bindParameters { id, component, arguments, pipelineParameters } names d =
        Binder.bindParameters { id, component, arguments := arguments', pipelineParameters }
          names d := by
    intro names
    induction names with
    | nil => exact fun _ => rfl
    | cons name rest ih =>
      intro d
      simp only [Binder.bindParameters, hargument, ih]
  have hartifacts : ∀ names d,
      Binder.bindArtifacts s { id, component, arguments, pipelineParameters } names d =
        Binder.bindArtifacts s { id, component, arguments := arguments', pipelineParameters }
          names d := by
    intro names
    induction names with
    | nil => exact fun _ => rfl
    | cons name rest ih =>
      intro d
      simp only [Binder.bindArtifacts, hargument, ih]
  unfold addTask
  simp only [hline, hparameters, hartifacts]

/-- Tasks that differ in an order are compiled in the same way: they are containers, and
    containers stay as they are. -/
theorem compileTask_rearranged {id : String} {t t' : GraphTask}
    (h : RearrangedTask (id, t) (id, t')) (pipelineParameters : List String) (d : Draft) :
    (compileTask s pipelineParameters id t d).Agree .anyFailure Eq
      (compileTask s pipelineParameters id t' d) := by
  have hsame := h.arguments.1
  cases h with
  | unresolved nodup perm => exact Recorded.agree_refl _
  | @resolved _ _ _ _ _ component component' _ _ _ inner nodup perm =>
    unfold compileTask
    dsimp only
    cases himpl : component.implementation with
    | container container =>
      obtain rfl := inner.eq_of_container himpl
      rw [himpl]
      dsimp only
      rw [addTask_congr hsame]
      exact Recorded.agree_refl _
    -- Tasks that are graphs are refused on both sides.
    | graph g =>
      obtain ⟨g', himpl', -⟩ := inner.graph_of_graph himpl
      rw [himpl']
      exact .neither trivial

/-! ### Pipelines -/

/-- Tasks are compiled one after another, and each of them in the same way. -/
theorem compileTasks_rearranged {g g' : Graph} (h : g.Rearranged g')
    (pipelineParameters order : List String) (d : Draft) :
    (compileTasks s g pipelineParameters order d).Agree .anyFailure Eq
      (compileTasks s g' pipelineParameters order d) := by
  -- By induction on the order, which both graphs have in common.
  induction order generalizing d with
  | nil => exact Recorded.agree_refl _
  | cons id rest ih =>
    have hfetch : Agree .anyFailure (fun t t' => RearrangedTask (id, t) (id, t'))
        (Keyed.fetch g.tasks id) (Keyed.fetch g'.tasks id) := by
      rw [Keyed.fetch, Keyed.fetch]
      rcases h.task? id with ⟨ht, ht'⟩ | ⟨t, t', ht, ht', htask⟩
      · rw [show Keyed.find? g.tasks id = none from ht,
          show Keyed.find? g'.tasks id = none from ht']
        exact .neither trivial
      · rw [show Keyed.find? g.tasks id = some t from ht,
          show Keyed.find? g'.tasks id = some t' from ht']
        exact .both htask
    rw [compileTasks, compileTasks]
    refine Recorded.agree_bind (Recorded.agree_lift hfetch) fun t t' htask => ?_
    refine Recorded.agree_bind
      (Recorded.agree_within (compileTask_rearranged htask _ d)) fun d' _ he => ?_
    subst he
    exact ih d'

/-- The types of inputs are looked up. -/
theorem typesOf_congr {c c' : Component} (h : c.inputs = c'.inputs) (names : List String) :
    typesOf c names = typesOf c' names := by
  induction names with
  | nil => rfl
  | cons name rest ih =>
    simp only [typesOf, Component.fetchInput, Component.input?, h, ih]

/-- **Graphs in another order have the same parts of a job**, or both have none. -/
theorem compileGraph_rearranged {c c' : Component} {g g' : Graph} (h : g.Rearranged g')
    (hinputs : c.inputs = c'.inputs) :
    (compileGraph s c g).Agree .anyFailure Eq (compileGraph s c' g') := by
  have hnames : c.inputNames = c'.inputNames := by
    rw [Component.inputNames, hinputs, Component.inputNames]
  unfold compileGraph
  rw [← hnames, ← h.outputValues]
  simp only [← typesOf_congr hinputs]
  refine Recorded.agree_bind (Recorded.agree_lift (h.order _)) fun order _ he => ?_
  subst he
  refine Recorded.agree_unless (Recorded.agree_bind (Recorded.agree_refl _) fun d _ he => ?_)
  subst he
  refine Recorded.agree_bind (compileTasks_rearranged h _ order d) fun d' _ he => ?_
  subst he
  exact Recorded.agree_refl _

/-- **Pipelines in another order have the same job**, or both have none. -/
theorem compile_agrees {context : Context} {c c' : Component} (h : c.Rearranged c')
    (arguments : Keyed Value) (outputDirectory contextName : String) :
    (compile context c arguments outputDirectory contextName).Agree .anyFailure Eq
      (compile context c' arguments outputDirectory contextName) := by
  -- A container is its own rearrangement; a graph is compiled step by step on both sides.
  cases himpl : c.implementation with
  | container container =>
    obtain rfl := h.eq_of_container himpl
    exact Recorded.agree_refl _
  | graph g =>
    obtain ⟨g', himpl', hg⟩ := h.graph_of_graph himpl
    have htexts : c.rootTexts arguments = c'.rootTexts arguments := by
      rw [Component.rootTexts, Component.rootTexts, h.inputs, h.inputNames]
    have hconstants : ∀ texts types,
      rootConstants c texts types = rootConstants c' texts types := by
      intro texts types
      induction types with
      | nil => rfl
      | cons entry rest ih =>
        simp only [rootConstants, Component.fetchInput, Component.input?, h.inputs, ih]
    unfold compile asGraph
    rw [himpl, himpl', ← htexts, ← h.name]
    simp only [← hconstants]
    refine Recorded.agree_bind (Recorded.agree_refl _) fun s _ he => ?_
    subst he
    refine Recorded.agree_bind (Recorded.agree_refl _) fun length _ _ => ?_
    refine Recorded.agree_bind (Recorded.agree_lift (.both hg)) fun g g' hg => ?_
    refine Recorded.agree_bind (compileGraph_rearranged hg h.inputs) ?_
    rintro _ _ rfl
    exact Recorded.agree_refl _

end PipelineCompiler.Vertex
