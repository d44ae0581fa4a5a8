import PipelineCompiler.Proofs.Component.Place
import PipelineCompiler.Proofs.Failing

namespace PipelineCompiler

/-!
# Failures that belong to no task yet

An error belongs to a task once the graph around the task has said so.  The steps for a single task
or a single container do not do that, and the plan of a graph does it for the faults of its tasks.

* `Failure.Unattributed` — a failure that belongs to no task yet;
* `CompilationError.Tells` — two errors tell the same, apart from the tasks they belong to;
* `order_unattributed` — plans fail at no task, apart from the faults of tasks;
* `Component.Leads` — a chain of tasks, each in the graph of the one before.
-/

/-! ### Errors without a task -/

/-- A failure that belongs to no task. -/
def Failure.Unattributed (e : Failure) : Prop :=
  ∀ error, e = .compilation error → error.taskPath = []

/-- Failures that are no compilation errors belong to no task. -/
theorem isLenient_unattributed : IsLenient Failure.Unattributed := by
  rintro e he error rfl
  cases he

/-- A cause alone belongs to no task. -/
theorem unattributed_ofCause (cause : Cause) : (Failure.ofCause cause).Unattributed := by
  intro error he
  obtain rfl := Failure.compilation.inj he
  rfl

/-- Command lines fail at no task. -/
theorem unattributed_ofCommandLine : HoldsOfCommandLines Failure.Unattributed :=
  fun cause _ => unattributed_ofCause cause

/-- A fault in a component alone belongs to no task. -/
theorem unattributed_ofSpec (fault : SpecFault) : (Failure.ofSpec fault).Unattributed :=
  unattributed_ofCause _

/-- A fault in a placeholder alone belongs to no task. -/
theorem unattributed_ofPlaceholder (fault : PlaceholderFault) :
    (Failure.ofPlaceholder fault).Unattributed := unattributed_ofCause _

/-- An accident belongs to no task. -/
theorem unattributed_accident (found : Accident) : (Failure.accident found).Unattributed :=
  isLenient_unattributed _ rfl

/-- Two errors tell the same, apart from the tasks they belong to. -/
structure CompilationError.Tells (e raised : CompilationError) : Prop where
  kind : e.diagnosis.kind = raised.diagnosis.kind
  message : e.diagnosis.message = raised.diagnosis.message
  details : e.diagnosis.details = raised.diagnosis.details
  hint : e.diagnosis.hint = raised.diagnosis.hint

/-- Errors with one cause do. -/
theorem CompilationError.tells_of_cause {e raised : CompilationError}
    (h : e.cause = raised.cause) : e.Tells raised := by
  constructor <;> simp only [CompilationError.diagnosis, h]

/-- A failure that is no compilation error, or that an input of the pipeline itself is given
    nothing. -/
def Failure.IsOfCaller (e : Failure) : Prop :=
  ∀ error, e = .compilation error → ∃ name, error = { cause := .missingArgument name }

/-- Failures that are no compilation errors are of that kind. -/
theorem isLenient_isOfCaller : IsLenient Failure.IsOfCaller := by
  rintro _ he error rfl
  cases he

/-- So is a missing argument that belongs to no task. -/
theorem isOfCaller_missingArgument (name : String) :
    (Failure.ofCause (.missingArgument name)).IsOfCaller :=
  fun _ he => ⟨name, (Failure.compilation.inj he).symm⟩

/-! ### Plans -/

section Plans

variable {g : Graph} {inputs : List String} {e : Failure}

/-- **A plan that fails** does so for a fault of a task, which it attributes to the task, or for a
    cause that belongs to the graph as a whole. -/
theorem order_unattributed (h : g.order inputs = .error e) :
    (∃ id task cause, (id, task) ∈ g.tasks ∧ g.taskFault? inputs task = some cause ∧
      e = (Failure.ofCause cause).within id) ∨ e.Unattributed := by
  rw [order_eq] at h
  -- A fault of a task is attributed to it; one of the graph outputs and a cycle belong to none.
  split at h
  next found hfound =>
    obtain rfl := Except.error.inj h
    unfold Graph.fault? at hfound
    rcases Option.or_eq_some_iff.mp hfound with htask | ⟨-, houtput⟩
    · obtain ⟨⟨id, task⟩, hentry, hfault⟩ := List.exists_of_findSome?_eq_some htask
      obtain ⟨cause, hcause, rfl⟩ := Option.map_eq_some_iff.mp hfault
      exact .inl ⟨id, task, cause, hentry, hcause, rfl⟩
    · obtain ⟨cause, -, rfl⟩ := Option.map_eq_some_iff.mp houtput
      exact .inr (unattributed_ofCause cause)
  next =>
    split at h
    · cases h
    · obtain rfl := Except.error.inj h
      exact .inr (unattributed_ofCause _)

end Plans

/-! ### Chains of tasks -/

/-- A chain of tasks, from the outermost inwards: the first one is a task of the graph that
    implements the component, and every other one of the graph that implements the component of
    the one before. -/
def Component.Leads (c : Component) : List String → Prop
  | [] => True
  | id :: rest => ∃ g task, c.graph? = some g ∧ g.task? id = some task ∧
      (rest = [] ∨ ∃ component, task.reference.spec = some component ∧ component.Leads rest)

namespace Component.Leads

/-- A task of the graph is a chain. -/
theorem single {c : Component} {g : Graph} (himpl : c.implementation = .graph g) {id : String}
    (hid : id ∈ Keyed.keys g.tasks) : c.Leads [id] := by
  obtain ⟨task, htask⟩ := Keyed.exists_find?_of_mem_keys hid
  exact ⟨g, task, graph?_eq_some.mpr himpl, htask, .inl rfl⟩

/-- **A path to a component is a chain of tasks**, and a chain in that component continues it. -/
theorem outward {c : Component} {path rest : List String} {here : Placed}
    (hat : c.at? path = some here) (hrest : here.component.Leads rest) :
    c.Leads (path.reverse ++ rest) := by
  induction path generalizing here rest with
  | nil =>
    obtain rfl := Option.some.inj hat
    exact hrest
  | cons id outer ih =>
    obtain ⟨around, g, task, haround, hg, htask, hspec, -⟩ := at?_cons.mp hat
    rw [List.reverse_cons, List.append_assoc]
    exact ih haround ⟨g, task, graph?_eq_some.mpr hg, htask, .inr ⟨_, hspec, hrest⟩⟩

/-- A path within a component is a chain of tasks. -/
theorem of_at? {c : Component} {path : List String} {here : Placed} (hat : c.at? path = some here) :
    c.Leads path.reverse := by
  have hleads : c.Leads (path.reverse ++ []) := outward hat trivial
  rwa [List.append_nil] at hleads

end Component.Leads
end PipelineCompiler
