import PipelineCompiler.Proofs.Build
import PipelineCompiler.Vertex.Live

namespace PipelineCompiler.Vertex.Live

/-!
# Pipeline jobs follow their records

* `addExecutor_follows`, `convert_follows`, `bindParameters_follows` and others — the steps of the
  builder;
* `compileTasks_follows`, `compileGraph_follows` — the tasks of a graph;
* `compile_follows` — whole pipelines.
-/

open Build (Follows)

variable {context : Context} {s : Settings} (hs : context.settings = .ok s)

/-! ### Parts and bindings -/

/-- The name of an executor. -/
theorem addExecutor_follows (d : Draft) (stem : Except Failure String) (launch : Launch) :
    Follows context (addExecutor s d stem launch) (d.addExecutor s stem launch) :=
  .bind (Registry.intern_follows _ _ _ _) fun _ _ => .pure _

/-- The name of a component. -/
theorem addComponent_follows (d : Draft) (stem : Except Failure String) (place : String)
    (entry : ComponentEntry) :
    Follows context (addComponent s d stem place entry) (d.addComponent s stem place entry) :=
  .bind (Registry.intern_follows _ _ _ _) fun _ _ =>
    .ite (.bind (.log _ _ _ _) fun _ _ => .pure _) (.pure _)

include hs

/-- A parameter as an artifact. -/
theorem convert_follows (d : Draft) (source : ParameterSource) (stem place : String) :
    Follows context (convert s d source stem place) (d.convert s source stem place) :=
  .settings hs <| .bind (.lift _) fun _ _ => .bind (addExecutor_follows _ _ _) fun _ _ =>
    .bind (addComponent_follows _ _ _ _) fun _ _ => .settings hs <| .bind (.lift _) fun _ _ =>
      .bind (Registry.intern_follows _ _ _ _) fun _ _ =>
        .ite (.bind (.log _ _ _ _) fun _ _ => .pure _) (.pure _)

omit hs in
/-- What an input parameter is bound to. -/
theorem parameterFor_follows (d : Draft) (declared : Value) (place : String)
    (argument : Argument) :
    Follows context (parameterFor d declared place argument)
      (d.parameterFor declared place argument) := by
  cases argument with
  | literal text => exact .ite (.bind (.warn _ _) fun _ _ => .pure _) (.pure _)
  | graphInput input type => exact .pure _
  | taskOutput source => exact .bind (.lift _) fun _ _ => .pure _

/-- What an input artifact is bound to. -/
theorem artifactFor_follows (d : Draft) (pipelineParameters : List String) (place : String)
    (argument : Argument) :
    Follows context (artifactFor s d pipelineParameters place argument)
      (d.artifactFor s pipelineParameters place argument) := by
  cases argument with
  | literal text => exact convert_follows hs _ _ _ _
  | graphInput input type => exact .ite (convert_follows hs _ _ _ _) (.pure _)
  | taskOutput source => exact .bind (.lift _) fun _ _ => .pure _

omit hs in
/-- The inputs that are used as parameters. -/
theorem bindParameters_follows (b : Binder) (names : List String) (d : Draft) :
    Follows context (bindParameters b names d) (b.bindParameters names d) := by
  induction names generalizing d with
  | nil => exact .pure _
  | cons name rest ih =>
    exact .bind (.lift _) fun _ _ => .bind (Build.argument_follows _ _ _) fun _ _ =>
      .bind (parameterFor_follows _ _ _ _) fun bound _ => .bind (ih bound.2) fun _ _ => .pure _

/-- The inputs that are used as files. -/
theorem bindArtifacts_follows (b : Binder) (names : List String) (d : Draft) :
    Follows context (bindArtifacts s b names d) (b.bindArtifacts s names d) := by
  induction names generalizing d with
  | nil => exact .pure _
  | cons name rest ih =>
    exact .bind (.lift _) fun _ _ => .bind (Build.argument_follows _ _ _) fun _ _ =>
      .bind (artifactFor_follows hs _ _ _ _) fun bound _ => .bind (ih bound.2) fun _ _ => .pure _

/-! ### Tasks -/

/-- A task with a container. -/
theorem addTask_follows (b : Binder) (container : Container) (d : Draft) :
    Follows context (addTask s b container d) (Vertex.addTask s b container d) :=
  .bind (.lift _) fun _ _ => .bind (addExecutor_follows _ _ _) fun _ _ =>
    .bind (.lift _) fun _ _ => .bind (addComponent_follows _ _ _ _) fun _ _ =>
      .bind (bindParameters_follows _ _ _) fun _ _ =>
        .bind (bindArtifacts_follows hs _ _ _) fun _ _ => .settings hs <|
          .bind (.lift _) fun _ _ => .bind (.lift _) fun _ _ =>
            .bind (.log _ _ _ _) fun _ _ => .pure _

/-- A task, which has to be a container. -/
theorem compileTask_follows (pipelineParameters : List String) (id : String) (task : GraphTask)
    (d : Draft) :
    Follows context (compileTask s pipelineParameters id task d)
      (Vertex.compileTask s pipelineParameters id task d) := by
  unfold compileTask Vertex.compileTask
  cases task.reference.spec with
  | none => exact .throw _
  | some component =>
    cases himpl : component.implementation with
    | container container =>
      simp only [himpl]
      exact addTask_follows hs _ _ _
    -- A task that is a graph fails on both sides.
    | graph g =>
      simp only [himpl]
      exact .throw _

/-- Tasks in an order. -/
theorem compileTasks_follows (g : Graph) (pipelineParameters order : List String) (d : Draft) :
    Follows context (compileTasks s g pipelineParameters order d)
      (Vertex.compileTasks s g pipelineParameters order d) := by
  induction order generalizing d with
  | nil => exact .pure _
  | cons id rest ih =>
    exact .bind (.lift _) fun task _ =>
      .bind ((compileTask_follows hs pipelineParameters id task d).within id) fun d _ => ih d

/-- The parts of the job of a graph. -/
theorem compileGraph_follows (c : Component) (g : Graph) :
    Follows context (compileGraph s c g) (Vertex.compileGraph s c g) :=
  .bind (.lift _) fun order _ => .lift_unless <| .bind (.lift _) fun _ _ =>
    .bind (compileTasks_follows hs g _ order _) fun _ _ => .bind (.lift _) fun _ _ =>
      .bind (.lift _) fun _ _ => .pure _

omit hs

/-! ### Whole pipelines -/

/-- The values of the inputs of a pipeline. -/
theorem rootConstants_follows (c : Component) (texts : Keyed String)
    (types : Keyed PrimitiveType) :
    Follows context (rootConstants c texts types) (Vertex.rootConstants c texts types) := by
  induction types with
  | nil => exact .pure _
  | cons entry rest ih =>
    obtain ⟨name, type⟩ := entry
    -- A constant that is given may be warned of; otherwise the rest follows at once.
    have hrest : ∀ constant, Follows context
        (rootConstants c texts rest >>= fun others => pure ((name, constant) :: others))
        (Vertex.rootConstants c texts rest >>= fun others => pure ((name, constant) :: others)) :=
      fun _ => .bind ih fun _ _ => .pure _
    exact .bind (.lift _) fun _ _ => .bind (Build.rootText_follows _ _) fun _ _ =>
      .ite (.bind (.warn _ _) fun _ _ => hrest _) (hrest _)

/-- **A job is built as it is compiled**, on every context and whatever was noted there before. -/
theorem compile_follows (context : Context) (c : Component) (arguments : Keyed Value)
    (outputDirectory contextName : String) :
    Follows context (compile c arguments outputDirectory contextName)
      (Vertex.compile context c arguments outputDirectory contextName) := by
  refine .settings_bind fun s hs => ?_
  exact .bind (.lift _) fun _ _ => .bind (.lift _) fun g _ =>
    .bind (compileGraph_follows hs c g) fun _ _ => .settings hs <| .bind (.lift _) fun _ _ =>
      .settings hs <| .bind (.lift _) fun _ _ => .settings hs <| .bind (.lift _) fun _ _ =>
        .bind (Build.rootTexts_follows c arguments) fun texts _ =>
          .bind (rootConstants_follows c texts _) fun _ _ => .bind (.log _ _ _ _) fun _ _ => .pure _

end PipelineCompiler.Vertex.Live
