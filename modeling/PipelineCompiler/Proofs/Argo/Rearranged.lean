import PipelineCompiler.Component.Basic
import PipelineCompiler.Proofs.Argo.Compile
import PipelineCompiler.Proofs.CommandLine
import PipelineCompiler.Proofs.Component.Rearranged

namespace PipelineCompiler.Argo

/-!
# Workflows of components in another order

A workflow does not depend on the order in which tasks and arguments are written: tasks are
compiled in an order of their own, and everything else about them is looked up.

* `addTask_congr` — a task is added to a draft in the same way;
* `blueprint_rearranged` — components have the same blueprint, after the same templates;
* `compile_rearranged` — pipelines have the same workflow.
-/

variable {s : Settings} {component component' : Component} {arguments arguments' : Keyed Argument}

/-! ### One task -/

/-- The kinds of the inputs of a task are looked up. -/
theorem kindsOf_congr (h : arguments.Same arguments') (scope : Scope) (inputs : List InputSpec) :
    scope.kindsOf arguments inputs = scope.kindsOf arguments' inputs := by
  induction inputs with
  | nil => rfl
  | cons input rest ih => rw [Scope.kindsOf, Scope.kindsOf, h input.name, ih]

/-- The blueprint of a container depends on nothing but what is found in its arguments. -/
theorem containerBlueprint_congr (h : arguments.Same arguments') (c : Component)
    (container : Container) :
    containerBlueprint s c container arguments = containerBlueprint s c container arguments' := by
  unfold containerBlueprint
  rw [← commandLine_congr (x := { component := c, arguments, accessors }) h]

/-- **A task is added in the same way**, whatever the order of its arguments. -/
theorem addTask_congr (h : arguments.Same arguments') (hc : component.Rearranged component')
    (place id : String) (path : List String) (blueprint : Blueprint) (d : Draft) :
    addTask s id { component, arguments, place } path blueprint d =
      addTask s id { component := component', arguments := arguments', place } path
        blueprint d := by
  -- Arguments are looked up by name, and the order of the bindings is that of the inputs.
  have hargument : ∀ name, Binder.argument { component, arguments, place } name =
      Binder.argument { component := component', arguments := arguments', place } name := by
    intro name
    simp only [Binder.argument, Component.fetchInput, Component.input?, InputSpec.argument,
      hc.inputs, h _]
  have hparameters : ∀ names d,
      Binder.bindParameters s { component, arguments, place } names d =
        Binder.bindParameters s { component := component', arguments := arguments', place }
          names d := by
    intro names
    induction names with
    | nil => exact fun _ => rfl
    | cons name rest ih =>
      intro d
      simp only [Binder.bindParameters, hargument, ih]
  have hartifacts : ∀ names d,
      Binder.bindArtifacts { component, arguments, place } names d =
        Binder.bindArtifacts { component := component', arguments := arguments', place }
          names d := by
    intro names
    induction names with
    | nil => exact fun _ => rfl
    | cons name rest ih =>
      intro d
      simp only [Binder.bindArtifacts, hargument, ih]
  unfold addTask
  simp only [hparameters, hartifacts, hc.name]

/-! ### Components and pipelines -/

/-- Tasks that differ in an order are compiled in the same way, if their components are. -/
theorem taskStep_rearranged {id : String} {t t' : GraphTask}
    (h : RearrangedTask (id, t) (id, t'))
    (hinner : ∀ c c', t.reference.spec = some c → c.Rearranged c' →
      ∀ arguments arguments' kinds path templates, arguments.Same arguments' →
        (componentBlueprint s arguments kinds path templates c).Agree .anyFailure Eq
          (componentBlueprint s arguments' kinds path templates c')) (d : Draft) :
    (taskStep s id t d).Agree .anyFailure Eq (taskStep s id t' d) := by
  have hsame := h.arguments.1
  -- A task without a component fails in both graphs.
  cases h with
  | unresolved nodup perm =>
    rw [taskStep, taskStep]
    exact Recorded.agree_refl _
  | resolved inner nodup perm =>
    rw [taskStep, taskStep, kindsOf_congr hsame, inner.inputs]
    refine Recorded.agree_bind (Recorded.agree_refl _) fun kinds _ he => ?_
    subst he
    refine Recorded.agree_bind (hinner _ _ rfl inner _ _ _ _ _ hsame) ?_
    rintro ⟨blueprint, templates⟩ _ rfl
    dsimp only
    rw [addTask_congr hsame inner]
    exact Recorded.agree_refl _

/-- Tasks are compiled one after another, and each of them in the same way. -/
theorem runTasks_agree {steps steps' : Keyed TaskStep}
    (h : ∀ id, Agree .anyFailure (fun f f' => ∀ d, (f d).Agree .anyFailure Eq (f' d))
      (Keyed.fetch steps id) (Keyed.fetch steps' id)) (order : List String) (d : Draft) :
    (runTasks steps order d).Agree .anyFailure Eq (runTasks steps' order d) := by
  induction order generalizing d with
  | nil => exact Recorded.agree_refl _
  | cons id rest ih =>
    rw [runTasks, runTasks]
    refine Recorded.agree_bind (Recorded.agree_lift (h id)) fun f f' hstep => ?_
    refine Recorded.agree_bind (Recorded.agree_within (hstep d)) fun d' _ he => ?_
    subst he
    exact ih d'

/-- **Components in another order have the same blueprint**, after the same templates. -/
theorem blueprint_rearranged {c c' : Component} (h : c.Rearranged c')
    {arguments arguments' : Keyed Argument} (kinds : Keyed InputKind) (path : List String)
    (templates : Registry Template) (hsame : arguments.Same arguments') :
    (componentBlueprint s arguments kinds path templates c).Agree .anyFailure Eq
      (componentBlueprint s arguments' kinds path templates c') := by
  -- By induction on components.  The two orders of a graph are equal (`Graph.Rearranged.order`), so
  -- both runs take the tasks one after the other in the same way.
  induction c using Component.nesting generalizing c' arguments arguments' kinds path templates with
  | container c container himpl =>
    obtain rfl := h.eq_of_container himpl
    obtain ⟨implementation, name, description, inputs, outputs, metadata⟩ := c
    obtain rfl : implementation = .container container := himpl
    rw [componentBlueprint, implementationBlueprint, componentBlueprint, implementationBlueprint,
      containerBlueprint_congr hsame]
    exact Recorded.agree_refl _
  | graph c g himpl ih =>
    obtain ⟨g', himpl', hg⟩ := h.graph_of_graph himpl
    have hinputs := h.inputNames
    obtain ⟨implementation, name, description, inputs, outputs, metadata⟩ := c
    obtain ⟨implementation', name', description', inputs', outputs', metadata'⟩ := c'
    obtain rfl : implementation = .graph g := himpl
    obtain rfl : implementation' = .graph g' := himpl'
    obtain ⟨tasks, outputValues⟩ := g
    obtain ⟨tasks', outputValues'⟩ := g'
    obtain rfl : outputValues = outputValues' := hg.outputValues
    rw [componentBlueprint, implementationBlueprint, componentBlueprint, implementationBlueprint]
    rw [← hinputs]
    refine Recorded.agree_bind (Recorded.agree_lift (hg.order _)) fun order _ he => ?_
    subst he
    refine Recorded.agree_bind (Recorded.agree_refl _) fun scope _ he => ?_
    subst he
    -- Each task is found in both graphs or in none, with rearranged components in the first case.
    refine Recorded.agree_bind (runTasks_agree (fun id => ?_) order _) fun d _ he => ?_
    · rw [Keyed.fetch, Keyed.fetch, find?_taskSteps, find?_taskSteps]
      rcases hg.task? id with ⟨ht, ht'⟩ | ⟨t, t', ht, ht', htask⟩
      · rw [show Keyed.find? tasks id = none from ht, show Keyed.find? tasks' id = none from ht']
        exact .neither trivial
      · rw [show Keyed.find? tasks id = some t from ht,
          show Keyed.find? tasks' id = some t' from ht']
        exact .both (taskStep_rearranged htask fun c c' hspec hc _ _ kinds path templates hsame =>
          ih _ (Keyed.mem_of_find? ht) c hspec hc kinds path templates hsame)
    · subst he
      exact Recorded.agree_refl _

/-- **Pipelines in another order have the same workflow**, or both have none. -/
theorem compile_agrees {context : Context} {c c' : Component} (h : c.Rearranged c')
    (arguments : Keyed Value) :
    (compile context c arguments).Agree .anyFailure Eq (compile context c' arguments) := by
  -- What the root does before any task looks at inputs only, which stand in the same order on both
  -- sides.
  have hbindings : ∀ texts names, rootBindings c texts names = rootBindings c' texts names := by
    intro texts names
    induction names with
    | nil => rfl
    | cons name rest ih =>
      simp only [rootBindings, Component.fetchInput, Component.input?, h.inputs, ih]
  have htexts : c.rootTexts arguments = c'.rootTexts arguments := by
    unfold Component.rootTexts
    rw [h.inputs, h.inputNames]
  unfold compile
  rw [← h.inputNames, ← h.name, ← htexts]
  simp only [← hbindings]
  -- So both compilations take the same steps, up to the blueprint.
  refine Recorded.agree_bind (Recorded.agree_refl _) fun s _ he => ?_
  subst he
  refine Recorded.agree_bind (Recorded.agree_refl _) fun length _ _ => ?_
  refine Recorded.agree_bind (blueprint_rearranged h _ _ _ fun _ => rfl) ?_
  rintro _ _ rfl
  exact Recorded.agree_refl _

end PipelineCompiler.Argo
