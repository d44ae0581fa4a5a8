import PipelineCompiler.Argo.Live
import PipelineCompiler.Proofs.Build
import PipelineCompiler.Proofs.Argo.Compile

namespace PipelineCompiler.Argo.Live

/-!
# Workflows follow their records

* `convert_follows`, `bindParameters_follows` and others — the steps of the builder;
* `componentBlueprint_follows` — components at any depth;
* `compile_follows` — **whole pipelines**.
-/

open Build (Follows)

variable {context : Context} {s : Settings} (hs : context.settings = .ok s)

/-! ### Templates and bindings -/

/-- The name of a template. -/
theorem addTemplate_follows (templates : Registry Template) (stem : Except Failure String)
    (path : List String) (t : Template) :
    Follows context (addTemplate s templates stem path t)
      (Argo.addTemplate s templates stem path t) :=
  .bind (templates.intern_follows _ _ _) fun _ _ =>
    .ite (.bind (.log _ _ _ _) fun _ _ => .pure _) (.pure _)

include hs

/-- An artifact as a parameter. -/
theorem convert_follows (d : Draft) (source : Reference) (stem : String) :
    Follows context (convert s d source stem) (d.convert s source stem) :=
  .settings hs <| .bind (.lift _) fun _ _ => .bind (addTemplate_follows _ _ _ _) fun _ _ =>
    .bind (Registry.intern_follows _ _ _ _) fun _ _ =>
      .ite (.bind (.log _ _ _ _) fun _ _ => .pure _) (.pure _)

/-- What an input that is used as a parameter is bound to. -/
theorem parameterFor_follows (d : Draft) (argument : Argument) :
    Follows context (parameterFor s d argument) (d.parameterFor s argument) := by
  cases argument with
  | literal text => exact .pure _
  | graphInput input type =>
    refine .bind (.lift _) fun kind _ => ?_
    cases kind with
    | artifact => exact convert_follows hs _ _ _
    | any | parameter => exact .pure _
  | taskOutput source => exact .bind (.lift _) fun _ _ => convert_follows hs _ _ _

omit hs in
/-- The argument of an input of a task. -/
theorem argument_follows (b : Binder) (inputName : String) :
    Follows context (argument b inputName) (b.argument inputName) :=
  .bind (.lift _) fun _ _ => Build.argument_follows _ _ _

/-- The inputs that are used as parameters. -/
theorem bindParameters_follows (b : Binder) (names : List String) (d : Draft) :
    Follows context (bindParameters s b names d) (b.bindParameters s names d) := by
  induction names generalizing d with
  | nil => exact .pure _
  | cons inputName rest ih =>
    exact .bind (argument_follows b inputName) fun found _ =>
      .bind (parameterFor_follows hs d found) fun bound _ => .bind (ih bound.2) fun _ _ => .pure _

omit hs in
/-- The inputs that are used as files. -/
theorem bindArtifacts_follows (b : Binder) (names : List String) (d : Draft) :
    Follows context (bindArtifacts b names d) (b.bindArtifacts names d) := by
  induction names generalizing d with
  | nil => exact .pure _
  | cons inputName rest ih =>
    exact .bind (argument_follows b inputName) fun found _ => .bind (.lift _) fun bound _ =>
      .bind (ih bound.2) fun _ _ => .pure _

/-! ### Tasks and components -/

/-- A task with a blueprint. -/
theorem addTask_follows (id : String) (b : Binder) (path : List String) (blueprint : Blueprint)
    (d : Draft) :
    Follows context (addTask s id b path blueprint d) (Argo.addTask s id b path blueprint d) :=
  .bind (addTemplate_follows _ _ _ _) fun _ _ => .bind (bindParameters_follows hs _ _ _) fun _ _ =>
    .bind (bindArtifacts_follows _ _ _) fun _ _ => .bind (.lift _) fun _ _ =>
      .bind (.log _ _ _ _) fun _ _ => .pure _

/-- A task, if its component follows. -/
theorem taskStep_follows {task : GraphTask}
    (h : ∀ component, task.reference.spec = some component → ∀ arguments kinds path templates,
      Follows context (componentBlueprint s arguments kinds path templates component)
        (Argo.componentBlueprint s arguments kinds path templates component))
    (id : String) (d : Draft) :
    Follows context (taskStep s id task d) (Argo.taskStep s id task d) := by
  obtain ⟨⟨name, digest, tag, url, spec⟩, arguments, annotations⟩ := task
  -- A task without a component fails on both sides.
  cases spec with
  | none => exact .throw _
  | some component =>
    rw [taskStep, Argo.taskStep]
    exact .bind (.lift _) fun kinds _ => .bind (h component rfl _ _ _ _) fun _ _ =>
      addTask_follows hs _ _ _ _ _

omit hs in
/-- The way in which a task is compiled is looked up by its id. -/
theorem find?_taskSteps (tasks : List (String × GraphTask)) (id : String) :
    Keyed.find? (taskSteps s tasks) id = (Keyed.find? tasks id).map (taskStep s id) := by
  induction tasks with
  | nil => rfl
  | cons entry rest ih =>
    obtain ⟨other, task⟩ := entry
    rw [taskSteps, Keyed.find?, Keyed.find?]
    by_cases h : other = id
    · subst h
      rw [if_pos rfl, if_pos rfl]
      rfl
    · rw [if_neg h, if_neg h, ih]

/-- Tasks in an order, if their components follow. -/
theorem runTasks_follows {tasks : List (String × GraphTask)}
    (h : ∀ entry ∈ tasks, ∀ component, entry.2.reference.spec = some component →
      ∀ arguments kinds path templates,
        Follows context (componentBlueprint s arguments kinds path templates component)
          (Argo.componentBlueprint s arguments kinds path templates component))
    (order : List String) (d : Draft) :
    Follows context (runTasks (taskSteps s tasks) order d)
      (Argo.runTasks (Argo.taskSteps s tasks) order d) := by
  -- By induction on the order.  The settings are read from the context, which no task has changed.
  induction order generalizing d with
  | nil => exact .pure _
  | cons id rest ih =>
    refine .lift_bind ?_
    rw [Keyed.fetch, Keyed.fetch, find?_taskSteps, Argo.find?_taskSteps]
    cases hfind : Keyed.find? tasks id with
    | none => exact .inl ⟨_, rfl, rfl⟩
    | some task =>
      have hstep := taskStep_follows hs (h (id, task) (Keyed.mem_of_find? hfind)) id d
      exact .inr ⟨_, _, rfl, rfl, .bind (hstep.within id) fun d _ => ih d⟩

/-- **A component follows at any depth.** -/
theorem componentBlueprint_follows (c : Component) (arguments : Keyed Argument)
    (kinds : Keyed InputKind) (path : List String) (templates : Registry Template) :
    Follows context (componentBlueprint s arguments kinds path templates c)
      (Argo.componentBlueprint s arguments kinds path templates c) := by
  -- By induction on components, since the components of tasks are compiled in the same state.
  induction c using Component.nesting generalizing arguments kinds path templates with
  | container c container himpl =>
    obtain ⟨implementation, name, description, inputs, outputs, metadata⟩ := c
    obtain rfl : implementation = .container container := himpl
    rw [componentBlueprint, implementationBlueprint, Argo.componentBlueprint,
      Argo.implementationBlueprint]
    exact .settings hs <| .bind (.lift _) fun _ _ => .pure _
  | graph c g himpl ih =>
    obtain ⟨implementation, name, description, inputs, outputs, metadata⟩ := c
    obtain rfl : implementation = .graph g := himpl
    obtain ⟨tasks, outputValues⟩ := g
    rw [componentBlueprint, implementationBlueprint, Argo.componentBlueprint,
      Argo.implementationBlueprint]
    exact .bind (.lift _) fun order _ => .bind (.lift _) fun scope _ =>
      .bind (runTasks_follows hs ih order _) fun _ _ => .bind (.lift _) fun _ _ => .pure _

omit hs

/-! ### Whole pipelines -/

/-- The texts of inputs of the pipeline. -/
theorem rootBindings_follows (c : Component) (texts : Keyed String) (names : List String) :
    Follows context (rootBindings c texts names) (Argo.rootBindings c texts names) := by
  induction names with
  | nil => exact .pure _
  | cons name rest ih =>
    exact .bind (.lift _) fun _ _ => .bind (Build.rootText_follows _ _) fun _ _ =>
      .bind ih fun _ _ => .pure _

/-- **A workflow is built as it is compiled**, on every context and whatever was noted there
    before. -/
theorem compile_follows (context : Context) (c : Component) (arguments : Keyed Value) :
    Follows context (compile c arguments) (Argo.compile context c arguments) := by
  refine .settings_bind fun s hs => ?_
  exact .bind (.lift _) fun _ _ => .bind (componentBlueprint_follows hs c _ _ _ _) fun made _ =>
    .bind (addTemplate_follows _ _ _ _) fun _ _ => .bind (Build.rootTexts_follows c arguments)
      fun texts _ => .bind (rootBindings_follows c texts _) fun _ _ =>
        .bind (rootBindings_follows c texts _) fun _ _ => .settings hs <| .bind (.lift _)
          fun _ _ => .bind (.lift _) fun _ _ => .settings hs <| .bind (.lift _) fun _ _ =>
            .bind (.lift _) fun _ _ => .bind (.log _ _ _ _) fun _ _ => .pure _

end PipelineCompiler.Argo.Live
