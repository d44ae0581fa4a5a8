import PipelineCompiler.Proofs.Argo.Compile

namespace PipelineCompiler.Argo

/-!
# Following references through a workflow

A workflow is looked at from outside here, by the texts that stand in it.  A path leads to a task
of the workflow: its name comes first, then the names of the tasks around it, outwards.  The empty
path leads to the entry point.

* `Workflow.outlineAt?` — the template of the task at a path;
* `Workflow.converted?` — what a reference stands for once conversions are seen through;
* `Workflow.follow?` — where the references end that begin at an input of the task at a path;
* `Resolved` — what is left of a binding then: `Binds.resolved`, `BindsFile.resolved`.
-/

/-! ### References and where they end -/

/-- An input of a template. -/
inductive Slot where
  | parameter (name : String)
  | artifact (name : String)
deriving Repr, DecidableEq

/-- Where references end: at a text, at an output of the task at a path, or at an argument of the
    workflow. -/
inductive Ending where
  | constant (text : String)
  | output (path : List String) (name : String)
  | argument (name text : String)
deriving Repr, DecidableEq

/-- The text that an input of a task is bound to. -/
def TaskOutline.text? (task : TaskOutline) : Slot → Option String
  | .parameter name => Keyed.find? task.parameters name
  | .artifact name => Keyed.find? task.artifacts name

/-- Where a reference within the template of the task at a path ends, when it is known where the
    inputs of that task end.  No task has an output that is a parameter, conversions aside. -/
def endingOf (path : List String) (follow : Slot → Option Ending) : Reference → Option Ending
  | .constant text => some (.constant text)
  | .parameter name => follow (.parameter name)
  | .artifact name => follow (.artifact name)
  | .taskArtifact task name => some (.output (task :: path) name)
  | .taskParameter _ _ => none

namespace Workflow

/-- The outline of the template with a name. -/
def outline? (w : Workflow) (name : String) : Option Outline :=
  (Keyed.find? w.templates name).map Template.outline

/-- The outline of the template of the task at a path. -/
def outlineAt? (w : Workflow) : List String → Option Outline
  | [] => w.outline? w.entrypoint
  | name :: outer => do
    let around ← w.outlineAt? outer
    let task ← Keyed.find? around.tasks name
    w.outline? task.template

/-- What a reference within a template stands for.  The output of a conversion stands for what is
    converted. -/
def converted? (w : Workflow) (around : Outline) : Reference → Option Reference
  | .taskParameter task name => do
    let found ← Keyed.find? around.tasks task
    match ← w.outline? found.template with
    | .conversion input output =>
      if name = output then (found.text? (.artifact input)).map Reference.read else none
    | _ => none
  | reference => some reference

/-- Where the references end that begin at an input of the task at a path. -/
def follow? (w : Workflow) : List String → Slot → Option Ending
  | [], .parameter name => (Keyed.find? w.parameters name).map (.argument name)
  | [], .artifact name => (Keyed.find? w.artifacts name).map (.argument name)
  | name :: outer, slot => do
    let around ← w.outlineAt? outer
    let task ← Keyed.find? around.tasks name
    let text ← task.text? slot
    let reference ← w.converted? around (Reference.read text)
    endingOf outer (w.follow? outer) reference

end Workflow

/-! ### What is left of a binding -/

/-- What the argument of an input comes to within the template of a graph, once conversions are
    seen through. -/
inductive Resolved (d : Draft) : Argument → Reference → Prop where
  | constant (text : String) : Resolved d (.literal text) (.constant text)
  | parameter {name : String} (type : Value) (used : name ∈ d.scope.parameters) :
      Resolved d (.graphInput name type) (.parameter (sanitizeIoName name))
  | artifact {name : String} (type : Value) (used : name ∈ d.scope.artifacts) :
      Resolved d (.graphInput name type) (.artifact (sanitizeIoName name))
  | output {source : TaskOutput} {task : String}
      (found : Keyed.find? d.scope.taskNames source.task = some task) :
      Resolved d (.taskOutput source) (.taskArtifact task (sanitizeIoName source.output))

variable {P : String → Prop} {d : Draft} {done : List String} {w : Workflow} {around : Outline}

/-- The graph of a draft stands in a workflow: its tasks are those of an outline, and its
    templates are those of the workflow. -/
structure StandsIn (d : Draft) (w : Workflow) (around : Outline) : Prop where
  tasks : ∀ name, Keyed.find? around.tasks name = taskOutline? d.scope.tasks.entries name
  templates : Keyed.Within d.templates.entries w.templates

/-- The outline of a template of the draft is found in the workflow. -/
theorem StandsIn.outline? (h : StandsIn d w around) {name : String} {o : Outline}
    (ho : Argo.outline? d.templates name = some o) : w.outline? name = some o := by
  obtain ⟨t, ht, rfl⟩ := Option.map_eq_some_iff.mp ho
  rw [Workflow.outline?, h.templates _ _ ht]
  rfl

/-- Names of tasks have no points. -/
theorem Draft.Sound.taskName_hasNoPoint (h : d.Sound P done []) {id name : String}
    (hname : Keyed.find? d.scope.taskNames id = some name) : HasNoPoint name :=
  hasNoPoint_of_legal (h.tasks.legal name (h.reserved id name hname).1)

/-- A conversion is seen through. -/
theorem Converts.converted? (hstands : StandsIn d w around) {name : String} {source : Reference}
    (h : Converts d name source) (hreadable : source.IsReadable) :
    w.converted? around (Reference.read (Reference.taskParameter name conversionOutput).text)
      = some source := by
  have hpoint : HasNoPoint conversionOutput := by
    unfold HasNoPoint
    decide
  have hread : (Reference.taskParameter name conversionOutput).IsReadable := ⟨h.point, hpoint⟩
  obtain ⟨template, htask, htemplate⟩ := h.task
  rw [read_text hread]
  simp only [Workflow.converted?, hstands.tasks, htask, Option.bind_eq_bind, Option.bind_some]
  have htext : (DagTask.conversion template source).outline.text? (.artifact conversionInput)
      = some source.text := rfl
  rw [show (DagTask.conversion template source).outline.template = template from rfl,
    hstands.outline? htemplate]
  simp only [Option.bind_some, if_true, htext, Option.map_some, read_text hreadable]

/-- A reference that is none to a conversion stands for itself. -/
theorem converted?_self {reference : Reference} (hreadable : reference.IsReadable)
    (hne : ∀ task name, reference ≠ .taskParameter task name) :
    w.converted? around (Reference.read reference.text) = some reference := by
  rw [read_text hreadable]
  cases reference with
  | taskParameter task name => exact absurd rfl (hne task name)
  | constant | parameter | artifact | taskArtifact => rfl

/-- **What is left of the binding of a parameter.** -/
theorem Binds.resolved (hsound : d.Sound P done []) (hstands : StandsIn d w around)
    {argument : Argument} {reference : Reference} (h : Binds d argument reference)
    (hplain : ∀ text, argument = .literal text → HasNoBraces text) :
    ∃ left, w.converted? around (Reference.read reference.text) = some left ∧
      Resolved d argument left := by
  cases h with
  | constant text =>
    exact ⟨_, converted?_self (hplain text rfl) (by simp), .constant text⟩
  | input type found kindNe used =>
    exact ⟨_, converted?_self (sanitizeIoName_hasNoPoint _) (by simp), .parameter type used⟩
  | converted type found used converts =>
    exact ⟨_, converts.converted? hstands (sanitizeIoName_hasNoPoint _), .artifact type used⟩
  | output found converts =>
    exact ⟨_, converts.converted? hstands
      ⟨hsound.taskName_hasNoPoint found, sanitizeIoName_hasNoPoint _⟩, .output found⟩

/-- **What is left of the binding of a file.** -/
theorem BindsFile.resolved (hsound : d.Sound P done []) {argument : Argument}
    {reference : Reference} (h : BindsFile d argument reference) :
    ∃ left, w.converted? around (Reference.read reference.text) = some left ∧
      Resolved d argument left := by
  cases h with
  | input type found kindNe used =>
    exact ⟨_, converted?_self (sanitizeIoName_hasNoPoint _) (by simp), .artifact type used⟩
  | output found =>
    exact ⟨_, converted?_self
      ⟨hsound.taskName_hasNoPoint found, sanitizeIoName_hasNoPoint _⟩ (by simp),
        .output found⟩

/-! ### Look-ups under legal names -/

/-- Names that stay different when they are made legal. -/
def DistinctNames (names : List String) : Prop :=
  ∀ a ∈ names, ∀ b ∈ names, sanitizeIoName a = sanitizeIoName b → a = b

/-- Under the legal name of an input its own entry is found. -/
theorem find?_of_forall₂ {α : Type} {declared : List String} (hdistinct : DistinctNames declared)
    (holds : String → α → Prop) {names : List String} {entries : Keyed α}
    (h : List.Forall₂ (fun name entry => name ∈ declared ∧ entry.1 = sanitizeIoName name ∧
      holds name entry.2) names entries) {name : String} (hname : name ∈ names) :
    ∃ v, Keyed.find? entries (sanitizeIoName name) = some v ∧ name ∈ declared ∧
      holds name v := by
  induction h with
  | nil => cases hname
  | @cons other entry names entries hentry hrest ih =>
    obtain ⟨k, v⟩ := entry
    obtain ⟨hdeclared, rfl, hholds⟩ := hentry
    have hmem : name ∈ declared := by
      rcases List.mem_cons.mp hname with rfl | hname
      · exact hdeclared
      · obtain ⟨_, -, hfound⟩ := exists_right_of_mem hrest hname
        exact hfound.1
    by_cases hsame : other = name
    · subst hsame
      exact ⟨v, by simp [Keyed.find?], hmem, hholds⟩
    -- another input has another legal name, so that its entry does not hide this one
    · have hne : sanitizeIoName other ≠ sanitizeIoName name := fun he =>
        hsame (hdistinct other hdeclared name hmem he)
      rw [Keyed.find?, if_neg hne]
      exact ih ((List.mem_cons.mp hname).resolve_left (Ne.symm hsame))

/-- The text of the binding of an input is found. -/
theorem BoundBy.find? {b : Binder} {holds : Argument → Reference → Prop} {names : List String}
    {bindings : List (String × Reference)} (h : BoundBy b holds names bindings)
    (hdistinct : DistinctNames b.component.inputNames) {name : String} (hname : name ∈ names) :
    ∃ reference, Keyed.find? (bindingTexts bindings) (sanitizeIoName name) =
      some reference.text ∧
      holds (b.component.argumentFor b.arguments name) reference := by
  obtain ⟨reference, hfind, -, hholds⟩ := find?_of_forall₂ hdistinct
    (fun name reference => holds (b.component.argumentFor b.arguments name) reference) h hname
  refine ⟨reference, ?_, hholds⟩
  rw [bindingTexts, Keyed.find?_map (fun _ (r : Reference) => r.text), hfind]
  rfl

end PipelineCompiler.Argo
