import PipelineCompiler.Proofs.Component.Flat
import PipelineCompiler.Proofs.Component.Place

namespace PipelineCompiler

/-!
# Pipelines without one of their arguments

One argument of a task, at whatever depth, is taken away.

* `Component.unbind` — the pipeline without the argument;
* `Planned.edit` — the tasks around can still be put in the same order;
* `at?_unbind` — what stands at its paths;
* `Component.Passes` — the inputs that get their data through the argument;
* `origin?_unbind`, `Component.Passes.constant` — these, and no others, have constants now.
-/

/-! ### Entries and tasks -/

namespace Keyed

variable {α : Type u}

/-- Entries without those under a key. -/
def without (entries : Keyed α) (key : String) : Keyed α :=
  entries.filter fun entry => entry.1 != key

/-- Nothing is found under the key. -/
theorem find?_without_self (entries : Keyed α) (key : String) :
    find? (entries.without key) key = none := by
  rw [find?_eq_none_iff, keys, without, List.mem_map]
  rintro ⟨entry, hentry, rfl⟩
  simpa using (List.mem_filter.mp hentry).2

/-- Under other keys the same is found. -/
theorem find?_without (entries : Keyed α) {key other : String} (h : other ≠ key) :
    find? (entries.without key) other = find? entries other := by
  induction entries with
  | nil => rfl
  | cons entry rest ih =>
    obtain ⟨k, v⟩ := entry
    rw [without, List.filter_cons]
    by_cases hk : k = key
    · subst hk
      rw [if_neg (by simp), find?, if_neg (Ne.symm h)]
      exact ih
    · rw [if_pos (by simpa using hk), find?, find?]
      split
      · rfl
      · exact ih

/-- Other keys are there as before. -/
theorem has_without (entries : Keyed α) {key other : String} (h : other ≠ key) :
    has (entries.without key) other = has entries other := by
  rw [has, has, find?_without entries h]

end Keyed

/-- A graph in which a task is changed. -/
def Graph.edit (g : Graph) (id : String) (f : GraphTask → GraphTask) : Graph :=
  { g with tasks := g.tasks.map fun entry =>
      (entry.1, if entry.1 = id then f entry.2 else entry.2) }

/-- A component in the graph of which, if there is one, a task is changed. -/
def Component.edit (c : Component) (id : String) (f : GraphTask → GraphTask) : Component :=
  match c.implementation with
  | .graph g => { c with implementation := .graph (g.edit id f) }
  | .container _ => c

/-- A task without the argument of an input, or with a component that is without it in the task at a
    path, from the outside inwards. -/
def GraphTask.unbind (name : String) : (inner : List String) → GraphTask → GraphTask
  | [], task => { task with arguments := Keyed.without task.arguments name }
  | id :: inner, task =>
    { task with reference := { task.reference with
        spec := task.reference.spec.map fun component => component.edit id (unbind name inner) } }

/-- A component without the argument of an input in the task at a path, from the outside inwards. -/
def Component.unbind (c : Component) (name : String) : (path : List String) → Component
  | [] => c
  | id :: inner => c.edit id (GraphTask.unbind name inner)

/-! ### What is not changed -/

section Edits

variable {c : Component} {g : Graph} {id : String} {f : GraphTask → GraphTask}

/-- The component has another graph. -/
theorem edit_graph (himpl : c.implementation = .graph g) :
    c.edit id f = { c with implementation := .graph (g.edit id f) } := by
  rw [Component.edit, himpl]

/-- A container stays as it is. -/
theorem edit_container {container : Container} (himpl : c.implementation = .container container) :
    c.edit id f = c := by
  rw [Component.edit, himpl]

/-- Nothing else becomes one. -/
theorem edit_eq_container {container : Container} :
    (c.edit id f).implementation = .container container ↔
      c.implementation = .container container := by
  cases himpl : c.implementation with
  | container found => rw [edit_container himpl, himpl]
  | graph g => simp [edit_graph himpl]

/-- It has the same name. -/
@[simp] theorem edit_name : (c.edit id f).name = c.name := by
  unfold Component.edit
  split <;> rfl

/-- It declares the same inputs. -/
@[simp] theorem edit_inputs : (c.edit id f).inputs = c.inputs := by
  unfold Component.edit
  split <;> rfl

/-- These have the same names. -/
@[simp] theorem edit_inputNames : (c.edit id f).inputNames = c.inputNames := by
  rw [Component.inputNames, Component.inputNames, edit_inputs]

/-- It declares the same outputs. -/
@[simp] theorem edit_outputNames : (c.edit id f).outputNames = c.outputNames := by
  unfold Component.edit Component.outputNames
  split <;> rfl

/-- The same counts for its inputs. -/
@[simp] theorem edit_argumentFor (arguments : Keyed Argument) (name : String) :
    (c.edit id f).argumentFor arguments name = c.argumentFor arguments name := by
  unfold Component.argumentFor Component.input?
  rw [edit_inputs]

/-- Its inputs are checked as before. -/
@[simp] theorem edit_checkInput (given : String → Bool) (name : String) :
    (c.edit id f).checkInput given name = c.checkInput given name := by
  unfold Component.checkInput Component.fetchInput Component.input?
  rw [edit_inputs]

/-- The tasks of the graph: one is changed. -/
theorem task?_edit (other : String) :
    (g.edit id f).task? other = (g.task? other).map fun task =>
      if other = id then f task else task :=
  Keyed.find?_map (fun key (task : GraphTask) => if key = id then f task else task) g.tasks other

/-- Their ids are the same. -/
theorem keys_edit : Keyed.keys (g.edit id f).tasks = Keyed.keys g.tasks := by
  simp [Graph.edit, Keyed.keys]

end Edits

/-- A task that is changed in a way that the graph around it does not notice: it may have lost
    arguments, and its component declares the same outputs. -/
structure GraphTask.Keeps (task changed : GraphTask) : Prop where
  arguments : ∀ argument ∈ changed.arguments, argument ∈ task.arguments
  outputs : ∀ component, task.reference.spec = some component → ∃ component',
    changed.reference.spec = some component' ∧ component'.outputNames = component.outputNames

/-- Whatever is taken away from a task, or within it. -/
theorem keeps_unbind (name : String) (inner : List String) (task : GraphTask) :
    task.Keeps (task.unbind name inner) := by
  cases inner with
  | nil =>
    exact ⟨fun argument hargument => (List.mem_filter.mp hargument).1,
      fun component hspec => ⟨component, hspec, rfl⟩⟩
  | cons id inner =>
    refine ⟨fun _ hargument => hargument, fun component hspec => ?_⟩
    exact ⟨component.edit id (GraphTask.unbind name inner),
      by rw [GraphTask.unbind, hspec, Option.map_some], edit_outputNames⟩

/-- **The order of the tasks is still one** when a task is changed in such a way. -/
theorem Planned.edit {g : Graph} {inputs order : List String} (h : Planned g inputs order)
    (id : String) {f : GraphTask → GraphTask} (hf : ∀ task : GraphTask, task.Keeps (f task)) :
    Planned (g.edit id f) inputs order := by
  have hkeeps : ∀ key (task : GraphTask), task.Keeps (if key = id then f task else task) := by
    intro key task
    split
    · exact hf task
    · exact ⟨fun _ hargument => hargument, fun component hspec => ⟨component, hspec, rfl⟩⟩
  have hmem : ∀ entry ∈ (g.edit id f).tasks, ∃ task : GraphTask,
    (entry.1, task) ∈ g.tasks ∧
      task.Keeps entry.2 := by
    intro entry hentry
    obtain ⟨⟨key, task⟩, hmem, rfl⟩ := List.mem_map.mp hentry
    exact ⟨task, hmem, hkeeps key task⟩
  -- a reference that led somewhere still does, because outputs are declared as before
  have hbroken : ∀ source, g.brokenOutput? source = none →
      (g.edit id f).brokenOutput? source = none := by
    intro source hsource
    obtain ⟨producer, component, hproducer, hspec, houtput⟩ := h.declares hsource
    obtain ⟨component', hspec', houtputs⟩ :=
      (hkeeps source.task producer).outputs component hspec
    rw [Graph.brokenOutput?, task?_edit, hproducer]
    simp only [Option.map_some, hspec', houtputs, houtput, if_true]
  refine ⟨h.nodup, fun other => by rw [keys_edit]; exact h.mem_iff other,
    h.before.imp fun earlier other hbefore changed hfound p hp => ?_,
    fun entry hentry => ?_, fun entry hentry argument hargument => ?_,
    fun output houtput => hbroken output.2 (h.outputs output houtput)⟩
  · rw [show Keyed.find? (g.edit id f).tasks other = _ from task?_edit other] at hfound
    obtain ⟨task, htask, rfl⟩ := Option.map_eq_some_iff.mp hfound
    refine hbefore task htask p ?_
    rw [GraphTask.producers, mem_sortedTexts, List.mem_filterMap] at hp ⊢
    obtain ⟨argument, hargument, hp⟩ := hp
    exact ⟨argument, (hkeeps other task).arguments argument hargument, hp⟩
  · obtain ⟨task, htask, hkept⟩ := hmem entry hentry
    obtain ⟨component, hspec⟩ := Option.isSome_iff_exists.mp (h.specified _ htask)
    obtain ⟨component', hspec', -⟩ := hkept.outputs component hspec
    rw [hspec']
    rfl
  · obtain ⟨task, htask, hkept⟩ := hmem entry hentry
    have hnone := h.arguments _ htask argument (hkept.arguments argument hargument)
    cases hvalue : argument.2 with
    | literal => rfl
    | graphInput => rwa [hvalue] at hnone
    | taskOutput source =>
      rw [hvalue] at hnone
      exact hbroken source hnone

/-! ### Places -/

/-- What is left of a way from the outside inwards behind a path, if it leads along there. -/
def restOf (way : List String) : (path : List String) → Option (List String)
  | [] => some way
  | id :: outer =>
    match restOf way outer with
    | some (next :: inner) => if next = id then some inner else none
    | _ => none

/-- The way consists of the path and what is left. -/
theorem restOf_eq_some {way path inner : List String} :
    restOf way path = some inner ↔ way = path.reverse ++ inner := by
  induction path generalizing inner with
  | nil => simp [restOf]
  | cons id outer ih =>
    rw [restOf, List.reverse_cons, List.append_assoc, List.singleton_append, ← ih]
    split
    next next rest hrest =>
      rw [hrest]
      by_cases hid : next = id
      · simp [hid]
      · simp [hid]
    next hnone =>
      refine ⟨fun h => (nomatch h), fun h => absurd h (hnone id inner)⟩

/-- What stands somewhere is changed on the way to the task that loses its argument, and there. -/
def Placed.unbind (name : String) : (rest : Option (List String)) → Placed → Placed
  | none, here => here
  | some [], here => { here with arguments := Keyed.without here.arguments name }
  | some (id :: inner), here =>
    { here with component := here.component.edit id (GraphTask.unbind name inner) }

/-- It is a container if it was one. -/
theorem unbind_eq_container {name : String} {rest : Option (List String)} {here : Placed}
    {container : Container} :
    (here.unbind name rest).component.implementation = .container container ↔
      here.component.implementation = .container container := by
  cases rest with
  | none => rfl
  | some rest =>
    cases rest with
    | nil => rfl
    | cons id inner => exact edit_eq_container

/-- It has the same name. -/
theorem unbind_name (name : String) (rest : Option (List String)) (here : Placed) :
    (here.unbind name rest).component.name = here.component.name := by
  cases rest with
  | none => rfl
  | some rest =>
    cases rest with
    | nil => rfl
    | cons id inner => exact edit_name

/-- What stands at a task that has a component. -/
def GraphTask.place? (task : GraphTask) : Option Placed :=
  task.reference.spec.map fun component => { component, arguments := task.arguments }

/-- What stands at a task in a component. -/
def Component.inner? (c : Component) (id : String) : Option Placed :=
  c.graph?.bind fun g => (g.task? id).bind GraphTask.place?

/-- A path goes on from what stands around. -/
theorem at?_eq_bind (c : Component) (id : String) (outer : List String) :
    c.at? (id :: outer) = (c.at? outer).bind fun around => around.component.inner? id := by
  have hplace : GraphTask.place? = fun task => task.reference.spec.bind fun component =>
      some { component, arguments := task.arguments } := funext fun _ => Option.map_eq_bind
  rw [Component.at?]
  simp only [Component.inner?, hplace, Option.bind_eq_bind, Option.pure_def]

/-- What stands at a task that loses an argument, itself or within it. -/
theorem place?_unbind (name : String) (inner : List String) (task : GraphTask) :
    (task.unbind name inner).place? = task.place?.map (Placed.unbind name (some inner)) := by
  cases inner with
  | nil => simp [GraphTask.place?, GraphTask.unbind, Placed.unbind, Function.comp_def]
  | cons id inner => simp [GraphTask.place?, GraphTask.unbind, Placed.unbind, Function.comp_def]

/-- What stands at the tasks of a component, one of which is changed. -/
theorem inner?_edit (c : Component) (id : String) (f : GraphTask → GraphTask) (other : String) :
    (c.edit id f).inner? other = c.graph?.bind fun g => (g.task? other).bind fun task =>
      if other = id then (f task).place? else task.place? := by
  cases himpl : c.implementation with
  | container container =>
    rw [edit_container himpl, Component.inner?, Component.graph?, himpl]
    rfl
  | graph g =>
    have hgraph : (c.edit id f).graph? = some (g.edit id f) :=
      graph?_eq_some.mpr (by rw [edit_graph himpl])
    rw [Component.inner?, hgraph, graph?_eq_some.mpr himpl, Option.bind_some, Option.bind_some,
      task?_edit]
    cases g.task? other with
    | none => rfl
    | some task =>
      rw [Option.map_some, Option.bind_some, Option.bind_some]
      split <;> rfl

/-- The inputs of the whole are the same. -/
theorem unbind_inputs (c : Component) (name : String) (way : List String) :
    (c.unbind name way).inputs = c.inputs := by
  cases way with
  | nil => rfl
  | cons id inner => exact edit_inputs

/-- **What stands at a path** when an argument was taken away. -/
theorem at?_unbind {c : Component} {name : String} {way : List String} (hway : way ≠ [])
    (path : List String) : (c.unbind name way).at? path =
      (c.at? path).map (Placed.unbind name (restOf way path)) := by
  have hsame : ∀ (here : Option Placed), here = here.map (Placed.unbind name none) :=
    fun here => by
    cases here <;> rfl
  -- By induction on the path.  It leaves the way to the task where the two first differ, and from
  -- there on nothing was changed.
  induction path with
  | nil =>
    cases way with
    | nil => exact absurd rfl hway
    | cons id inner =>
      rw [Component.at?, Component.at?, Option.map_some, restOf, Placed.unbind, Component.unbind,
        rootArguments, edit_inputNames]
      rfl
  | cons id outer ih =>
    rw [at?_eq_bind, ih, at?_eq_bind, restOf]
    cases c.at? outer with
    | none => rfl
    | some around =>
      rw [Option.map_some, Option.bind_some, Option.bind_some]
      cases hrest : restOf way outer with
      | none => exact hsame _
      | some rest =>
        cases rest with
        | nil => exact hsame _
        | cons next inner =>
          rw [Placed.unbind, inner?_edit, Component.inner?]
          dsimp only
          cases around.component.graph? with
          | none => rfl
          | some g =>
            rw [Option.bind_some, Option.bind_some]
            cases g.task? id with
            | none => rfl
            | some task =>
              rw [Option.bind_some, Option.bind_some]
              by_cases hid : id = next
              · rw [if_pos hid, if_pos hid.symm, place?_unbind]
              · rw [if_neg hid, if_neg (Ne.symm hid)]
                exact hsame _

/-! ### Where the data went -/

/-- An input that needs an argument: it has no default and is not optional. -/
def Component.Requires (c : Component) (name : String) : Prop :=
  ∃ input, c.input? name = some input ∧ input.default = none ∧ input.isOptional = false

/-- The data of an input of the task at a path comes through the input `name` of the task at
    `outer`: it is this input, or it is passed on from the graph around. -/
inductive Component.Passes (c : Component) (outer : List String) (name : String) :
    List String → String → Prop
  | self : Passes c outer name outer name
  | inward {id : String} {path : List String} {here : Placed} {input passed : String} {type : Value}
      (around : Passes c outer name path passed) (place : c.at? (id :: path) = some here)
      (argument : here.component.argumentFor here.arguments input = .graphInput passed type) :
      Passes c outer name (id :: path) input

/-- What counts for such an input without an argument is empty. -/
theorem Component.Requires.argumentFor_unbind {here : Placed} {name : String}
    (h : here.component.Requires name) : (here.unbind name (some [])).component.argumentFor
      (here.unbind name (some [])).arguments name = .literal "" := by
  obtain ⟨input, hinput, hdefault, -⟩ := h
  rw [Placed.unbind, argumentFor_eq hinput, Keyed.find?_without_self, hdefault]
  rfl

namespace Component.Passes

variable {c : Component} {outer path : List String} {name input : String}

/-- It went inwards. -/
theorem within (h : c.Passes outer name path input) :
    (path = outer ∧ input = name) ∨ ∃ id inner, path = id :: inner ++ outer := by
  induction h with
  | self => exact .inl ⟨rfl, rfl⟩
  | @inward id path _ _ _ _ _ _ _ ih =>
    rcases ih with ⟨rfl, -⟩ | ⟨next, inner, rfl⟩
    · exact .inr ⟨id, [], rfl⟩
    · exact .inr ⟨id, next :: inner, rfl⟩

end Component.Passes

section Origins

variable {c : Component} {name : String} {way : List String}

/-- The same counts for inputs everywhere, apart from the one that lost its argument. -/
theorem unbind_argumentFor {rest : Option (List String)} {input : String}
    (h : rest = some [] → input ≠ name) (here : Placed) :
    (here.unbind name rest).component.argumentFor (here.unbind name rest).arguments input =
      here.component.argumentFor here.arguments input := by
  cases rest with
  | none => rfl
  | some rest =>
    cases rest with
    | nil =>
      unfold Placed.unbind Component.argumentFor
      rw [Keyed.find?_without _ (h rfl)]
    | cons id inner => exact edit_argumentFor _ _

/-- **Where there is a constant now**, there was one before, or the data came through the argument
    that was taken away. -/
theorem origin?_unbind (hway : way ≠ []) {path : List String} {input text : String}
    (h : (c.unbind name way).origin? path input = some (.constant text)) :
    (∃ text, c.origin? path input = some (.constant text)) ∨
      c.Passes way.reverse name path input := by
  -- By induction on the path, along which the data is traced outwards.
  induction path generalizing input with
  | nil =>
    rw [Component.origin?] at h
    split at h
    · cases Option.some.inj h
    · cases h
  | cons id outer ih =>
    cases hhere' : (c.unbind name way).at? (id :: outer) with
    | none =>
      rw [Component.origin?, hhere'] at h
      cases h
    | some here' =>
      rw [origin?_cons hhere'] at h
      rw [at?_unbind hway] at hhere'
      obtain ⟨here, hhere, rfl⟩ := Option.map_eq_some_iff.mp hhere'
      -- Either this is the argument that was taken away, or it is as it was and leads further out.
      by_cases hlost : restOf way (id :: outer) = some [] ∧ input = name
      · obtain ⟨hrest, rfl⟩ := hlost
        rw [restOf_eq_some, List.append_nil] at hrest
        rw [hrest, List.reverse_reverse]
        exact .inr .self
      · rw [unbind_argumentFor fun hrest he => hlost ⟨hrest, he⟩] at h
        rw [origin?_cons hhere]
        cases hargument : here.component.argumentFor here.arguments input with
        | literal found => exact .inl ⟨found, rfl⟩
        | taskOutput source =>
          rw [hargument] at h
          cases Option.some.inj h
        | graphInput passed type =>
          rw [hargument] at h
          exact (ih h).imp_right fun hpasses => .inward hpasses hhere hargument

/-- **Data that came through the argument that was taken away is a constant now.** -/
theorem Component.Passes.constant {path : List String} {input : String}
    (h : c.Passes way.reverse name path input) (hway : way ≠ []) {task : Placed}
    (htask : c.at? way.reverse = some task) (hrequired : task.component.Requires name) :
    (c.unbind name way).origin? path input = some (.constant "") := by
  have hrest : restOf way way.reverse = some [] := restOf_eq_some.mpr (by simp)
  -- By induction on the tasks that the data goes through.  Behind the task that lost its argument
  -- nothing has changed, so the data is traced as before.
  induction h with
  | self =>
    have hhere : (c.unbind name way).at? way.reverse = some (task.unbind name (some [])) := by
      rw [at?_unbind hway, htask, hrest]
      rfl
    cases hpath : way.reverse with
    | nil => exact absurd (List.reverse_eq_nil_iff.mp hpath) hway
    | cons id outer =>
      rw [hpath] at hhere
      rw [origin?_cons hhere, hrequired.argumentFor_unbind]
  | @inward id path here input passed type around place argument ih =>
    have hbeyond : restOf way (id :: path) ≠ some [] := by
      intro hrest'
      rw [restOf_eq_some, List.append_nil] at hrest'
      have hlength := congrArg List.length hrest'
      rcases around.within with ⟨rfl, -⟩ | ⟨next, inner, rfl⟩
      · simp at hlength
      · simp at hlength
    have hhere : (c.unbind name way).at? (id :: path) =
        some (here.unbind name (restOf way (id :: path))) := by
      rw [at?_unbind hway, place]
      rfl
    rw [origin?_cons hhere, unbind_argumentFor (fun hrest' => absurd hrest' hbeyond), argument]
    exact ih

end Origins
end PipelineCompiler
