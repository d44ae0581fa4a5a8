import PipelineCompiler.Argo.Scope
import PipelineCompiler.Proofs.Binding
import PipelineCompiler.Proofs.Graph.Order
import PipelineCompiler.Proofs.Launch

namespace PipelineCompiler

/-!
# Flat pipelines

The tasks of a flat pipeline are containers.  Whether such a pipeline is in order can be said
without any target:

* `Component.IsFlat`, `Graph.IsWhole` — flat pipelines, and those whose texts are whole;
* `Component.checkInputs` — refuses inputs that need something and get nothing;
* `GraphTask.check`, `Graph.check`, `Component.check` — the check of a task, of a graph whose
  tasks are checked in some way, and of a pipeline, with the inputs that are needed for them;
* `argument_agrees`, `rootText_agrees` — what inputs are bound to, against the check of one input;
* `bindings_agree` — the same for inputs that are bound one after another, whatever the target.
-/

open Text

/-! ### Pipelines -/

/-- A name that is a text, or is absent. -/
def IsStem (name : Value) : Prop := name = .null ∨ ∃ s, name = .str s

/-- There is a stem for the names of what has such a name. -/
theorem exists_nameOr {name : Value} (h : IsStem name) (standIn : String) :
    ∃ stem, nameOr name standIn = .ok stem := by
  rcases h with rfl | ⟨s, rfl⟩
  · exact ⟨standIn, rfl⟩
  · unfold nameOr Value.orElse
    split
    next found hfound => exact ⟨found, rfl⟩
    next hnone =>
      split at hnone
      · exact absurd rfl (hnone s)
      · exact absurd rfl (hnone standIn)

/-- A pipeline whose tasks are containers, and whose names are texts where there are any. -/
structure Component.IsFlat (c : Component) (g : Graph) : Prop where
  graph : c.implementation = .graph g
  named : IsStem c.name
  tasks : ∀ entry ∈ g.tasks, ∀ component ∈ entry.2.reference.spec,
    IsStem component.name ∧ component.isContainer = true

/-- A component that is a container. -/
theorem exists_container {c : Component} (h : c.isContainer = true) :
    ∃ container, c.implementation = .container container := by
  unfold Component.isContainer at h
  split at h
  next container himpl => exact ⟨container, himpl⟩
  next => cases h

/-- The text that an argument is. -/
def Argument.text? : Argument → Option String
  | .literal text => some text
  | .graphInput _ _ | .taskOutput _ => none

/-- The input of the graph that an argument is. -/
def Argument.input? : Argument → Option String
  | .graphInput input _ => some input
  | .literal _ | .taskOutput _ => none

/-- All texts of the tasks of a graph that get into documents are whole. -/
def Graph.IsWhole (g : Graph) : Prop :=
  ∀ entry ∈ g.tasks,
    (∀ argument ∈ entry.2.arguments, ∀ text ∈ argument.2.text?, Whole text) ∧
      ∀ component ∈ entry.2.reference.spec, component.IsWhole

instance : DecidablePred Graph.IsWhole := fun g =>
  inferInstanceAs (Decidable (∀ entry ∈ g.tasks, (∀ argument ∈ _, ∀ text ∈ _, _) ∧
    ∀ _ ∈ _, _))

/-- An argument that leads somewhere: a whole text, an input of the graph, or a task of it. -/
def Argument.IsGrounded (inputs order : List String) : Argument → Prop
  | .literal text => Whole text
  | .graphInput input _ => input ∈ inputs
  | .taskOutput source => source.task ∈ order

/-- **The arguments that count are grounded** in a planned graph, if they are whole where they are
    written down. -/
theorem Planned.isGrounded {g : Graph} {inputs order : List String} (h : Planned g inputs order)
    {id : String} {task : GraphTask} (htask : g.task? id = some task) {component : Component}
    {name : String}
    (hwhole : ∀ text, component.argumentFor task.arguments name = .literal text →
      Whole text) : (component.argumentFor task.arguments name).IsGrounded inputs order := by
  cases harg : component.argumentFor task.arguments name with
  | literal text => exact hwhole text harg
  | graphInput input type =>
    obtain ⟨entry, hmem, heq⟩ := argumentFor_mem harg fun _ he => nomatch he
    exact h.input htask hmem heq
  | taskOutput source =>
    obtain ⟨entry, hmem, heq⟩ := argumentFor_mem harg fun _ he => nomatch he
    obtain ⟨producer, -, hproducer, -⟩ := h.output htask hmem heq
    exact (h.mem_iff _).mpr (Keyed.mem_keys_of_find? hproducer)

/-- They are whole in a graph whose texts are. -/
theorem Graph.IsWhole.literal {g : Graph} (h : g.IsWhole) {id : String} {task : GraphTask}
    (htask : g.task? id = some task) {component : Component}
    (hspec : task.reference.spec = some component) (name text : String)
    (htext : component.argumentFor task.arguments name = .literal text) : Whole text := by
  obtain ⟨htexts, hcomponents⟩ := h _ (Keyed.mem_of_find? htask)
  rcases argumentFor_literal htext with ⟨entry, hmem, heq⟩ | ⟨input, hinput, hdefault⟩ | rfl
  · exact htexts entry hmem text (by rw [heq]; rfl)
  · exact (hcomponents component hspec).default hinput hdefault
  · exact fun _ hc => nomatch hc

/-! ### The check -/

/-- Refuses an input that needs something and gets nothing. -/
def InputSpec.check (input : InputSpec) (isGiven : Bool) : Except Failure Unit :=
  if isGiven || input.default.isSome || input.isOptional then .ok ()
  else .error (.ofCause (.missingArgument input.name))

/-- The same for an input with a name, which is given or not. -/
def Component.checkInput (c : Component) (given : String → Bool) (name : String) :
    Except Failure Unit := do
  let input ← c.fetchInput name
  input.check (given name)

/-- The same for inputs one after another. -/
def Component.checkInputs (c : Component) (given : String → Bool) :
    List String → Except Failure Unit
  | [] => .ok ()
  | name :: rest => do
    c.checkInput given name
    c.checkInputs given rest

/-- The inputs of the graph that some inputs of a task are bound to. -/
def inputsOf (arguments : Keyed Argument) (names : List String) : List String :=
  names.filterMap fun name => (Keyed.find? arguments name).bind Argument.input?

/-- How a target that does not matter refers to inputs and outputs. -/
def Accessors.plain : Accessors := { parameterValue := id, artifactPath := id, outputPath := id }

/-- Checks a task.  The result are the inputs of the graph that it needs. -/
def GraphTask.check (task : GraphTask) : Except Failure (List String) :=
  match task.reference.spec with
  | none => .error (.ofCause (.unresolvedReference task.reference.name task.reference.url))
  | some component =>
    match component.implementation with
    | .graph _ => .error (.ofCause (.nestedGraph component.name))
    | .container container => do
      let line ← Expander.commandLine
        { component, arguments := task.arguments, accessors := .plain } container
      component.checkInputs (Keyed.has task.arguments) line.inputs
      pure (inputsOf task.arguments line.inputs)

/-- Checks tasks in an order.  The result are the inputs of the graph that are needed for them. -/
def checkAll (checks : Keyed (Except Failure (List String))) :
    List String → Except Failure (List String)
  | [] => .ok []
  | id :: rest => do
    let check ← Keyed.fetch checks id
    let needed ← withinTask id check
    let others ← checkAll checks rest
    pure (needed ++ others)

/-- Checks a graph: its order, and its tasks in this order, each in a given way. -/
def Graph.check (check : GraphTask → Except Failure (List String)) (g : Graph)
    (inputs : List String) : Except Failure (List String) := do
  let order ← g.order inputs
  checkAll (Keyed.mapValues check g.tasks) order

/-- Checks a pipeline with the arguments of a caller: its graph, and the inputs that are needed for
    it. -/
def Component.check (c : Component) (g : Graph) (arguments : Keyed Value) :
    Except Failure Unit := do
  let used ← g.check GraphTask.check c.inputNames
  c.checkInputs (Keyed.has (c.givenTexts arguments)) used

/-! ### Inputs that are checked -/

section Inputs

variable {c : Component} (given : String → Bool) {names others : List String} {mayStop : Prop}

/-- A declared input can be fetched. -/
theorem exists_fetchInput {name : String} (h : name ∈ c.inputNames) :
    ∃ input, c.fetchInput name = .ok input ∧ input ∈ c.inputs ∧ input.name = name := by
  obtain ⟨declared, hdeclared, rfl⟩ := List.mem_map.mp h
  cases hfind : c.input? declared.name with
  | none => exact absurd (List.find?_eq_none.mp hfind declared hdeclared) (by simp)
  | some input =>
    exact ⟨input, fetchInput_eq_ok.mpr hfind, List.mem_of_find?_eq_some hfind,
      input?_name hfind⟩

/-- Inputs pass their checks together when each of them does. -/
theorem checkInputs_eq_ok {given : String → Bool} {names : List String} :
    c.checkInputs given names = .ok () ↔ ∀ name ∈ names,
      c.checkInput given name = .ok () := by
  induction names with
  | nil => exact ⟨fun _ _ hname => (nomatch hname), fun _ => rfl⟩
  | cons name rest ih =>
    rw [Component.checkInputs, List.forall_mem_cons, ← ih]
    constructor
    · intro h
      obtain ⟨_, hfirst, hrest⟩ := bind_eq_ok.mp h
      exact ⟨hfirst, hrest⟩
    · rintro ⟨hfirst, hrest⟩
      rw [hfirst]
      exact hrest

/-- The check of a declared input either passes or says that its argument is missing. -/
theorem checkInput_cases {name : String} (h : name ∈ c.inputNames) :
    c.checkInput given name = .ok () ∨
      c.checkInput given name = .error (.ofCause (.missingArgument name)) := by
  obtain ⟨input, hinput, -, hname⟩ := exists_fetchInput h
  rw [Component.checkInput, hinput]
  change input.check _ = _ ∨ input.check _ = _
  rw [InputSpec.check, hname]
  split
  · exact .inl rfl
  · exact .inr rfl

/-- **Declared inputs either pass the check, all of them, or the argument of one is missing.** -/
theorem checkInputs_cases (h : ∀ name ∈ names, name ∈ c.inputNames) :
    (c.checkInputs given names = .ok () ∧ ∀ name ∈ names,
      c.checkInput given name = .ok ()) ∨
      ∃ missing ∈ names, c.checkInput given missing ≠ .ok () ∧
        c.checkInputs given names = .error (.ofCause (.missingArgument missing)) := by
  -- By induction on the names: the first that fails is the one that is missing.
  induction names with
  | nil => exact .inl ⟨rfl, fun _ hname => nomatch hname⟩
  | cons name rest ih =>
    rw [Component.checkInputs]
    rcases checkInput_cases given (h name List.mem_cons_self) with hfirst | hfirst
    · rcases ih fun other hother => h other (List.mem_cons_of_mem _ hother) with
        ⟨hrest, hall⟩ | ⟨missing, hmem, hmissing, hrest⟩
      · refine .inl ⟨by rw [hfirst]; exact hrest, fun other hother => ?_⟩
        rcases List.mem_cons.mp hother with rfl | hother
        · exact hfirst
        · exact hall other hother
      · exact .inr ⟨missing, List.mem_cons_of_mem _ hmem, hmissing, by
          rw [hfirst]; exact hrest⟩
    · have hfails : c.checkInput given name ≠ .ok () := by
        rw [hfirst]
        exact fun he => nomatch he
      exact .inr ⟨name, List.mem_cons_self, hfails, by rw [hfirst]; rfl⟩

/-- **The verdict on inputs does not depend on their order.** -/
theorem checkInputs_congr (h : ∀ name ∈ names, name ∈ c.inputNames)
    (hsame : ∀ name, name ∈ names ↔ name ∈ others) :
    Agree (.verdict mayStop) Eq (c.checkInputs given names) (c.checkInputs given others) := by
  have h' : ∀ name ∈ others, name ∈ c.inputNames := fun name hname =>
    h name ((hsame name).mpr hname)
  -- All inputs are given, for both lists, or one is missing in both.
  rcases checkInputs_cases given h with ⟨hnames, hall⟩ | ⟨missing, hmem, hmissing, hnames⟩
  · rcases checkInputs_cases given h' with
      ⟨hothers, -⟩ | ⟨missing, hmem, hmissing, -⟩
    · rw [hnames, hothers]
      exact .both rfl
    · exact absurd (hall missing ((hsame missing).mpr hmem)) hmissing
  · rcases checkInputs_cases given h' with
      ⟨-, hall⟩ | ⟨missing', -, -, hothers⟩
    · exact absurd (hall missing ((hsame missing).mp hmem)) hmissing
    · rw [hnames, hothers]
      exact .neither ⟨.missingArgument, [], (fun he => nomatch he), rfl, rfl⟩

/-- Inputs are checked one after another. -/
theorem checkInputs_append : c.checkInputs given (names ++ others) =
    c.checkInputs given names >>= fun _ => c.checkInputs given others := by
  induction names with
  | nil => rfl
  | cons name rest ih =>
    rw [List.cons_append, Component.checkInputs, ih, Component.checkInputs]
    cases c.checkInput given name with
    | error e => rfl
    | ok u => rfl

/-- What an input is bound to, against its check. -/
theorem bound_agrees {α : Type} (input : InputSpec) (bound : Option α) (literal : String → α)
    (task : String) :
    Agree (.verdict mayStop) (fun a _ => a = bound.getD (literal (input.default.getD "")))
      (input.bound bound literal task).result (input.check bound.isSome) := by
  unfold InputSpec.bound InputSpec.check
  -- What is bound comes first, then the default, and an input without either may be optional.
  cases bound with
  | some a => exact .both rfl
  | none =>
    cases input.default with
    | some text => exact .both rfl
    | none =>
      dsimp only
      cases input.isOptional with
      | true => exact .both rfl
      | false => exact .neither ⟨.missingArgument, [], (fun he => nomatch he), rfl, rfl⟩

/-- An input that gets something passes its check. -/
theorem checkInput_of_bound {P : String → Prop} {α : Type} {entries : Keyed α} {a : α}
    {literal : String → α} {task name : String} {input : InputSpec}
    (hinput : c.fetchInput name = .ok input)
    (h : (input.bound (Keyed.find? entries input.name) literal task).Yields P a) :
    c.checkInput (Keyed.has entries) name = .ok () := by
  have hagrees : Agree (.verdict False) _ _ _ :=
    bound_agrees input (Keyed.find? entries input.name) literal task
  obtain ⟨_, hchecked, -⟩ := hagrees.exists_ok h.1
  rw [input?_name (fetchInput_eq_ok.mp hinput)] at hchecked
  exact bind_eq_ok.mpr ⟨input, hinput, hchecked⟩

/-- **The argument of an input in a task, against the check of the input.** -/
theorem argument_agrees (arguments : Keyed Argument) (task : String) {name : String}
    (h : name ∈ c.inputNames) :
    Agree (.verdict mayStop) (fun a _ => a.2 = c.argumentFor arguments name)
      (do
        let input ← c.fetchInput name
        let argument ← input.argument arguments task
        pure (input, argument) : Recorded (InputSpec × Argument)).result
      (c.checkInput (Keyed.has arguments) name) := by
  obtain ⟨input, hinput, -, rfl⟩ := exists_fetchInput h
  rw [Recorded.result_bind_of_ok (a := input) hinput, Recorded.result_bind, Component.checkInput,
    hinput, argumentFor_eq (fetchInput_eq_ok.mp hinput)]
  exact (bound_agrees input _ _ task).bind_left fun _ _ ha => .both ha

/-- **The text of an input of a pipeline, against the check of the input.** -/
theorem rootText_agrees (texts : Keyed String) {name : String} (h : name ∈ c.inputNames) :
    Agree (.verdict mayStop) (fun _ _ => True)
      (do
        let input ← c.fetchInput name
        input.rootText texts : Recorded String).result
      (c.checkInput (Keyed.has texts) name) := by
  obtain ⟨input, hinput, -, rfl⟩ := exists_fetchInput h
  rw [Recorded.result_bind_of_ok (a := input) hinput, Component.checkInput, hinput]
  exact (bound_agrees input _ _ "").mono fun _ _ _ => trivial

end Inputs

/-! ### Inputs that are bound -/

section Bindings

variable {c : Component} {arguments : Keyed Argument} {mayStop : Prop}

/-- An input of the graph that some inputs of a task are bound to. -/
theorem mem_inputsOf {names : List String} {input : String} :
    input ∈ inputsOf arguments names ↔
      ∃ name ∈ names, (c.argumentFor arguments name).input? = some input := by
  rw [inputsOf, List.mem_filterMap]
  refine exists_congr fun name => and_congr_right fun _ => ?_
  unfold Component.argumentFor
  cases Keyed.find? arguments name with
  | none => simp [Argument.input?]
  | some argument => rfl

/-- What inputs are bound to, one after another: every binding has a property, and those inputs of
    the graph are used that were used before or that some of the inputs are bound to. -/
structure Bound {δ β : Type} (used : δ → List String) (ready : δ → Prop)
    (good : String × β → Prop) (before : List String) (more : List String)
    (out : List (String × β) × δ) : Prop where
  ready : ready out.2
  good : ∀ binding ∈ out.1, good binding
  used : ∀ input, input ∈ used out.2 ↔ input ∈ before ∨ input ∈ more

/-- **Inputs that are bound one after another, against their checks.**  `get` finds out what counts
    for an input, which fails like its check, and `step` binds it, which does not fail in a way that
    the check would know. -/
theorem bindings_agree {δ β γ : Type} {used : δ → List String} {ready : δ → Prop}
    {good : String × β → Prop} {get : String → Recorded (γ × Argument)}
    (key : String → String)
    (step : String → γ × Argument → δ → Recorded (β × δ))
    {loop : List String → δ → Recorded (List (String × β) × δ)}
    (hnil : ∀ d, loop [] d = pure ([], d))
    (hcons : ∀ name rest d, loop (name :: rest) d =
      get name >>= fun a => step name a d >>= fun out => loop rest out.2 >>= fun others =>
        pure ((key name, out.1) :: others.1, others.2))
    {names : List String}
    (hget : ∀ name ∈ names, Agree (.verdict mayStop)
      (fun a _ => a.2 = c.argumentFor arguments name) (get name).result
      (c.checkInput (Keyed.has arguments) name))
    (hstep : ∀ name ∈ names, ∀ a d, a.2 = c.argumentFor arguments name → ready d →
      Agree (.verdict mayStop) (fun out (_ : Unit) => ready out.2 ∧ good (key name, out.1) ∧
        ∀ input, input ∈ used out.2 ↔ input ∈ used d ∨ a.2.input? = some input)
        (step name a d).result (.ok ()))
    {d : δ} (hready : ready d) :
    Agree (.verdict mayStop)
      (fun out _ => Bound used ready good (used d) (inputsOf arguments names) out)
      (loop names d).result (c.checkInputs (Keyed.has arguments) names) := by
  -- By induction on the names.  Each binding fails with its check, and what is used so far is
  -- carried along.
  induction names generalizing d with
  | nil =>
    rw [hnil]
    exact .both ⟨hready, (fun _ hbinding => nomatch hbinding), fun input => by simp [inputsOf]⟩
  | cons name rest ih =>
    rw [hcons, Component.checkInputs, Recorded.result_bind]
    refine (hget name List.mem_cons_self).bind fun a _ ha => ?_
    rw [Recorded.result_bind]
    refine (hstep name List.mem_cons_self a d ha hready).bind_ok fun out hout => ?_
    obtain ⟨hnext, hgood, hused⟩ := hout
    rw [Recorded.result_bind]
    refine (ih (fun other hother => hget other (List.mem_cons_of_mem _ hother))
      (fun other hother => hstep other (List.mem_cons_of_mem _ hother)) hnext).bind_left
      fun others _ hothers => .both ⟨hothers.ready, fun binding hbinding => ?_, fun input => ?_⟩
    · rcases List.mem_cons.mp hbinding with rfl | hbinding
      · exact hgood
      · exact hothers.good binding hbinding
    · rw [hothers.used input, hused input, mem_inputsOf (c := c), mem_inputsOf (c := c), ha]
      simp only [List.exists_mem_cons_iff, or_assoc]

end Bindings

/-! ### Tasks that are compiled -/

section Tasks

variable {mayStop : Prop} {g : Graph} {inputs : List String}

/-- The causes for which the tasks of a graph have no order. -/
def Cause.IsOfGraph : Cause → Prop
  | .unresolvedReference _ _ | .broken _ | .brokenOutput _ _ | .cycle _ => True
  | _ => False

/-- The cause for which a task is at fault is one of them. -/
theorem taskFault?_isOfGraph {task : GraphTask} {cause : Cause}
    (h : g.taskFault? inputs task = some cause) : cause.IsOfGraph := by
  unfold Graph.taskFault? at h
  split at h
  · obtain rfl := Option.some.inj h
    trivial
  · obtain ⟨reference, -, rfl⟩ := Option.map_eq_some_iff.mp h
    trivial

/-- So is the cause for which a graph is at fault. -/
theorem fault?_isOfGraph {e : CompilationError} (h : g.fault? inputs = some e) :
    e.cause.IsOfGraph := by
  unfold Graph.fault? at h
  rcases Option.or_eq_some_iff.mp h with h | ⟨-, h⟩
  · obtain ⟨entry, -, h⟩ := List.exists_of_findSome?_eq_some h
    obtain ⟨cause, hcause, rfl⟩ := Option.map_eq_some_iff.mp h
    exact taskFault?_isOfGraph hcause
  · obtain ⟨cause, hcause, rfl⟩ := Option.map_eq_some_iff.mp h
    unfold Graph.outputFault? at hcause
    obtain ⟨output, -, hcause⟩ := List.exists_of_findSome?_eq_some hcause
    obtain ⟨reference, -, rfl⟩ := Option.map_eq_some_iff.mp hcause
    trivial

/-- **Where there is no order, there is a reason against it.** -/
theorem order_error {e : Failure} (h : g.order inputs = .error e) :
    ∃ error, e = .compilation error ∧ error.cause.IsOfGraph := by
  rw [order_eq] at h
  split at h
  next found hfound => exact ⟨found, (Except.error.inj h).symm, fault?_isOfGraph hfound⟩
  next =>
    split at h
    · cases h
    · exact ⟨_, (Except.error.inj h).symm, trivial⟩

/-- Such a reason is one that every target knows. -/
theorem order_agrees (g : Graph) (inputs : List String) :
    Agree (.verdict mayStop) Eq (g.order inputs) (g.order inputs) := by
  refine .refl fun e he => ?_
  obtain ⟨error, rfl, hcause⟩ := order_error he
  refine ⟨_, _, ?_, rfl, rfl⟩
  cases hkind : error.cause with
  | unresolvedReference | broken | brokenOutput | cycle => exact fun he => nomatch he
  | _ =>
    rw [hkind] at hcause
    cases hcause

/-- A draft of a target has a property, and these inputs of the graph are used in it. -/
def Tracks {δ : Type} (used : δ → List String) (ready : δ → Prop) (d : δ)
    (total : List String) :
    Prop := ready d ∧ ∀ input, input ∈ used d ↔ input ∈ total

/-- **A task whose inputs are bound, against its check.**  The inputs that the target reads are
    those that the check found. -/
theorem task_agrees {δ : Type} {used : δ → List String} {ready : δ → Prop} {c : Component}
    {arguments : Keyed Argument} {before names needed : List String}
    (hsame : ∀ input, input ∈ names ↔ input ∈ needed)
    (hdeclared : ∀ name ∈ names, name ∈ c.inputNames) {x : Except Failure δ}
    (h : Agree (.verdict mayStop)
      (fun d _ => Tracks used ready d (before ++ inputsOf arguments names)) x
      (c.checkInputs (Keyed.has arguments) names)) :
    Agree (.verdict mayStop) (fun d more => Tracks used ready d (before ++ more)) x (do
      c.checkInputs (Keyed.has arguments) needed
      pure (inputsOf arguments needed)) := by
  refine (h.trans (checkInputs_congr _ hdeclared hsame)).bind_right fun d _ hd => .both ?_
  obtain ⟨-, ⟨hready, hused⟩, -⟩ := hd
  refine ⟨hready, fun input => ?_⟩
  simp only [hused input, List.mem_append, mem_inputsOf (c := c), hsame]

/-- **Tasks that are compiled one after another, against their checks.** -/
theorem tasks_agree {δ : Type} {used : δ → List String} {ready : δ → Prop}
    {check : GraphTask → Except Failure (List String)}
    (step : String → GraphTask → δ → Recorded δ)
    {loop : List String → δ → Recorded δ} (hnil : ∀ d, loop [] d = pure d)
    (hcons : ∀ id task rest d, g.task? id = some task →
      (loop (id :: rest) d).result = ((step id task d).within id >>= loop rest).result)
    (hstep : ∀ id task d, g.task? id = some task → ready d →
      Agree (.verdict mayStop) (fun d' more => Tracks used ready d' (used d ++ more))
        (step id task d).result (check task))
    {order : List String} (horder : ∀ id ∈ order, ∃ task, g.task? id = some task) {d : δ}
    (hready : ready d) :
    Agree (.verdict mayStop) (fun d' more => Tracks used ready d' (used d ++ more))
      (loop order d).result (checkAll (Keyed.mapValues check g.tasks) order) := by
  -- By induction on the order, as the loop over the tasks goes.
  induction order generalizing d with
  | nil =>
    rw [hnil]
    exact .both ⟨hready, fun input => by rw [List.append_nil]⟩
  | cons id rest ih =>
    obtain ⟨task, htask⟩ := horder id List.mem_cons_self
    have hfetch : Keyed.fetch (Keyed.mapValues check g.tasks) id = .ok (check task) := by
      rw [fetch_eq_ok, Keyed.mapValues, Keyed.find?_map (fun _ => check),
        show Keyed.find? g.tasks id = some task from htask]
      rfl
    rw [hcons id task rest d htask, Recorded.result_bind, checkAll, hfetch]
    refine (hstep id task d htask hready).within.bind fun d' more hnext => ?_
    refine (ih (fun other hother => horder other (List.mem_cons_of_mem _ hother))
      hnext.1).bind_right fun last others hlast => .both ⟨hlast.1, fun input => ?_⟩
    rw [hlast.2 input, List.mem_append, hnext.2 input, ← List.mem_append, List.append_assoc]

end Tasks
end PipelineCompiler
