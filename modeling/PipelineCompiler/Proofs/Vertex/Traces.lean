import PipelineCompiler.Proofs.Traces
import PipelineCompiler.Proofs.Vertex.Compile

namespace PipelineCompiler.Vertex

/-!
# Traces of pipeline jobs

* `Draft.Named` — names that are given to the tasks of a graph are not those of other tasks;
* `TellsTask` — what an event tells of a task: the name of one that makes an artifact, or the id
  of one of the graph;
* `Told` — some notes are those of a compilation, and their events tell which components and tasks
  it adds;
* `convert_told`, `compileTask_told`, `compileTasks_told` — one lemma for each step;
* `Traced`, `compile_traced` — the events of a whole compilation tell the components and tasks of
  the job.
-/

variable {P : String → Prop} {s : Settings} {target : String} {names : Keyed String}
variable {done : List String}

/-! ### Names of tasks -/

/-- What holds of the tasks of a draft when those in `done` are compiled, whether digests tell texts
    apart or not.  The tasks of the graph have the names `names`. -/
structure Draft.Named (P : String → Prop) (names : Keyed String) (d : Draft)
    (done : List String) :
    Prop where
  taskNames : d.taskNames = names
  sound : d.tasks.Sound P JobTask.toValue
  /-- The names of the tasks of the graph are in use, and never those of conversions. -/
  reserved : ∀ id name, Keyed.find? names id = some name →
    name ∈ d.tasks.names.used ∧ name ∉ d.tasks.names.keptNames
  defined : ∀ name ∈ Keyed.keys d.tasks.entries,
    name ∈ d.tasks.names.keptNames ∨ ∃ id ∈ done, Keyed.find? names id = some name

namespace Draft.Named

variable {d d' : Draft}

/-- Only the tasks matter. -/
theorem congr (h : d.Named P names done) (htasks : d'.tasks = d.tasks)
    (hnames : d'.taskNames = d.taskNames) : d'.Named P names done where
  taskNames := hnames.trans h.taskNames
  sound := htasks ▸ h.sound
  reserved := htasks ▸ h.reserved
  defined := htasks ▸ h.defined

/-- A task is stored. -/
theorem store (h : d.Named P names done) {task : JobTask} {name : String} {tasks : Registry JobTask}
    (hstored : Registry.Stored P JobTask.toValue d.tasks task name tasks) :
    Draft.Named P names { d with tasks } done where
  taskNames := h.taskNames
  sound := hstored.sound
  reserved := by
    intro id n hn
    obtain ⟨hused, hkept⟩ := h.reserved id n hn
    exact ⟨hstored.grows.used n hused, hstored.grows.not_kept hused hkept⟩
  defined := by
    intro n hn
    -- A name in the table was there before, or is that of the conversion, which is kept.
    rcases hstored.appended with ⟨hentries, hkept⟩ | ⟨-, hentries, hkept⟩
    · rw [hentries] at hn
      rw [hkept]
      exact h.defined n hn
    · rw [hentries, Keyed.keys_append, List.mem_append] at hn
      rcases hn with hn | hn
      · exact (h.defined n hn).imp_left (hstored.keptMono n)
      · obtain rfl := List.mem_singleton.mp hn
        exact .inl hstored.kept

variable (hdistinct : ∀ id id' name, Keyed.find? names id = some name →
  Keyed.find? names id' = some name → id = id')

include hdistinct in
/-- No task has the name of a task that is not compiled yet. -/
theorem isNew (h : d.Named P names done) {id name : String} (hid : id ∉ done)
    (hname : Keyed.find? names id = some name) : name ∉ Keyed.keys d.tasks.entries := by
  intro hmem
  rcases h.defined name hmem with hkept | ⟨other, hother, hfind⟩
  · exact (h.reserved id name hname).2 hkept
  · exact hid (hdistinct other id name hfind hname ▸ hother)

include hdistinct in
/-- A task of the graph is added under its name. -/
theorem define (h : d.Named P names done) {id name : String} (hid : id ∉ done)
    (hname : Keyed.find? names id = some name) (task : JobTask) :
    Draft.Named P names { d with tasks := d.tasks.define name task } (done ++ [id]) where
  taskNames := h.taskNames
  sound := Registry.define_sound h.sound (h.reserved id name hname).1
    (h.isNew hdistinct hid hname) task
  reserved := h.reserved
  defined := by
    intro n hn
    rw [Registry.define_entries (h.isNew hdistinct hid hname), Keyed.keys_append,
      List.mem_append] at hn
    rcases hn with hn | hn
    · refine (h.defined n hn).imp_right ?_
      rintro ⟨other, hother, hfind⟩
      exact ⟨other, List.mem_append_left _ hother, hfind⟩
    · obtain rfl := List.mem_singleton.mp hn
      exact .inr ⟨id, List.mem_append_right _ List.mem_cons_self, hname⟩

end Draft.Named

/-! ### What events tell of tasks -/

/-- An event that tells of a task. -/
def IsTaskEvent (event : Keyed Value) : Prop :=
  textAt? event "message" = some "make-artifact task inserted" ∨
    textAt? event "message" = some "task compiled"

instance (event : Keyed Value) : Decidable (IsTaskEvent event) :=
  inferInstanceAs (Decidable (_ ∨ _))

/-- What an event tells of a task with a name.  The tasks of the graph have the names `names`. -/
def TellsTask (names : Keyed String) (event : Keyed Value) : String × JobTask → Prop
  | (name, .conversion _ _ _) => textAt? event "message" = some "make-artifact task inserted" ∧
      Keyed.find? event "converter" = some (.str name)
  | (name, .step id _ _ _ _) => textAt? event "message" = some "task compiled" ∧
      Keyed.find? event "task_id" = some (.str (taskKey id)) ∧
      Keyed.find? names id = some name

/-- Notes that a compilation takes while it adds components and tasks.  Their events tell which. -/
structure Told (target : String) (names : Keyed String) (notes : List Note) (d d' : Draft) :
    Prop where
  own : ∀ note ∈ notes, note.IsOwn
  components : d.components.Told "component allocated" "component" (eventsOf target notes)
    d'.components
  tasks : ∃ added, d'.tasks.entries = d.tasks.entries ++ added ∧
    List.Forall₂ (TellsTask names) ((eventsOf target notes).filter (IsTaskEvent ·)) added

variable {d d' d₁ d₂ : Draft}

/-- Parts are added in two steps. -/
theorem Told.append {notes later : List Note} (h : Told target names notes d d₁)
    (h' : Told target names later d₁ d₂) : Told target names (notes ++ later) d d₂ where
  own := fun note hnote => (List.mem_append.mp hnote).elim (h.own note) (h'.own note)
  components := by
    rw [eventsOf_append]
    exact h.components.append h'.components
  tasks := by
    obtain ⟨added, hentries, hevents⟩ := h.tasks
    obtain ⟨more, hentries', hevents'⟩ := h'.tasks
    refine ⟨added ++ more, by rw [hentries', hentries, List.append_assoc], ?_⟩
    rw [eventsOf_append, List.filter_append]
    exact List.rel_append hevents hevents'

/-- Notes without events for components or tasks. -/
theorem told_same {notes : List Note} (hown : ∀ note ∈ notes, note.IsOwn)
    (hreports : reports "component allocated" "component" (eventsOf target notes) = [])
    (hevents : ∀ event ∈ eventsOf target notes, ¬ IsTaskEvent event)
    (hcomponents : d'.components = d.components) (htasks : d'.tasks = d.tasks) :
    Told target names notes d d' where
  own := hown
  components := Registry.told_same hreports (by rw [hcomponents])
  tasks := by
    refine ⟨[], by rw [htasks, List.append_nil], ?_⟩
    rw [List.filter_eq_nil_iff.mpr fun event hevent => by simpa using hevents event hevent]
    exact .nil

/-- No notes are taken. -/
theorem told_nil (target : String) (names : Keyed String) (d : Draft) :
    Told target names [] d d :=
  told_same (fun _ hnote => nomatch hnote) rfl (fun _ hevent => nomatch hevent) rfl rfl

/-- Warnings add nothing. -/
theorem told_warnings {α : Type} {x : Recorded α} (h : x.OnlyWarns)
    (hcomponents : d'.components = d.components) (htasks : d'.tasks = d.tasks) :
    Told target names x.notes d d' := by
  refine told_same h.own (reports_warnings (by decide) h) (fun event hevent htask => ?_) hcomponents
    htasks
  obtain ⟨note, hnote, rfl⟩ := List.mem_map.mp hevent
  obtain ⟨task, text, rfl, htext⟩ := h note hnote
  -- a warning begins with a capital letter, and these events do not
  unfold IsTaskEvent at htask
  rw [Note.eventFor, textAt?_message List.not_mem_nil, Option.some.injEq,
    Option.some.injEq] at htask
  rcases htask with rfl | rfl
  · exact absurd htext (by decide)
  · exact absurd htext (by decide)

/-! ### Parts of a task -/

/-- An executor is added without notes. -/
theorem addExecutor_quiet {stem : Except Failure String} {launch : Launch} {name : String}
    (hyields : (d.addExecutor s stem launch).Yields P (name, d')) :
    (d.addExecutor s stem launch).notes = [] ∧ d'.components = d.components ∧
      d'.tasks = d.tasks ∧ d'.taskNames = d.taskNames := by
  unfold Draft.addExecutor at hyields ⊢
  obtain ⟨⟨given, isNew, executors⟩, hintern, hyields, hnotes⟩ :=
    Recorded.yields_bind_notes hyields
  obtain ⟨-, rfl⟩ := Recorded.yields_pure_pair hyields
  refine ⟨?_, rfl, rfl, rfl⟩
  rw [hnotes, Registry.intern_notes]
  rfl

/-- **A component** is told of when it is new. -/
theorem addComponent_told (target : String) (names : Keyed String) {stem : Except Failure String}
    {place : String} {entry : ComponentEntry}
    {name : String} (hyields : (d.addComponent s stem place entry).Yields P (name, d')) :
    Told target names (d.addComponent s stem place entry).notes d d' ∧
      d'.tasks = d.tasks ∧ d'.taskNames = d.taskNames := by
  unfold Draft.addComponent at hyields ⊢
  obtain ⟨⟨given, isNew, components⟩, hintern, hyields, hnotes₁⟩ :=
    Recorded.yields_bind_notes hyields
  dsimp only at hyields hnotes₁
  obtain ⟨hyields, hnotes₂⟩ := Recorded.yields_log_when hyields
  obtain ⟨rfl, rfl⟩ := Recorded.yields_pure_pair hyields
  refine ⟨?_, rfl, rfl⟩
  rw [hnotes₁, Registry.intern_notes, hnotes₂, List.nil_append]
  refine Told.append ⟨?_, Registry.told_intern hintern target _ _ (by decide), [], ?_, ?_⟩
    (told_nil _ _ _)
  -- At most one note, and it tells of a component that was added.
  · intro note hnote
    split at hnote
    · rw [List.mem_singleton.mp hnote]
      exact ⟨by decide, by decide, by simp [Keyed.keys], by simp [Keyed.keys]⟩
    · cases hnote
  · exact (List.append_nil _).symm
  · split
    · exact .nil
    · exact .nil

/-- **A conversion** is told of when it is new. -/
theorem convert_told (target : String) (h : d.Named P names done) {source : ParameterSource}
    {stem place : String}
    {artifact : ArtifactSource}
    (hyields : (d.convert s source stem place).Yields P (artifact, d')) :
    Told target names (d.convert s source stem place).notes d d' ∧ d'.Named P names done := by
  unfold Draft.convert at hyields ⊢
  obtain ⟨launch, -, hyields, hnotes₁⟩ := Recorded.yields_lift_notes hyields
  obtain ⟨⟨executor, d₁⟩, hadd, hyields, hnotes₂⟩ := Recorded.yields_bind_notes hyields
  obtain ⟨⟨component, d₂⟩, hadd', hyields, hnotes₃⟩ :=
    Recorded.yields_bind_notes hyields
  obtain ⟨cached, -, hyields, hnotes₄⟩ := Recorded.yields_lift_notes hyields
  obtain ⟨⟨name, isNew, tasks⟩, hintern, hyields, hnotes₅⟩ :=
    Recorded.yields_bind_notes hyields
  dsimp only at hyields hnotes₂ hnotes₃ hnotes₄ hnotes₅
  obtain ⟨hyields, hnotes₆⟩ := Recorded.yields_log_when hyields
  obtain ⟨rfl, rfl⟩ := Recorded.yields_pure_pair hyields
  obtain ⟨hsilent, hcomponents, htasks, hnames⟩ := addExecutor_quiet hadd
  obtain ⟨htold, htasks', hnames'⟩ := addComponent_told target names hadd'
  have hnamed : d₂.Named P names done := (h.congr htasks hnames).congr htasks' hnames'
  have hstored : Registry.Stored P JobTask.toValue d₂.tasks _ name tasks :=
    Registry.Interned.stored ⟨_, _, hintern⟩ hnamed.sound
  -- The executor adds no event, the component tells of itself, and the conversion is told of if it
  -- is new.
  refine ⟨?_, hnamed.store hstored⟩
  rw [hnotes₁, hnotes₂, hsilent, hnotes₃, hnotes₄, hnotes₅,
    Registry.intern_notes, hnotes₆, List.nil_append, List.nil_append]
  have hexecutor : Told target names [] d d₁ :=
    told_same (fun _ hnote => nomatch hnote) rfl (fun _ hevent => nomatch hevent) hcomponents htasks
  refine hexecutor.append (htold.append (Told.append ?_ (told_nil _ _ _)))
  rcases Registry.intern_entries hintern with ⟨rfl, -, hentries⟩ | ⟨rfl, hentries⟩
  · refine ⟨fun note hnote => ?_, Registry.told_same rfl rfl, _, hentries, ?_⟩
    · rw [if_pos rfl] at hnote
      rw [List.mem_singleton.mp hnote]
      exact ⟨by decide, by decide, by simp [Keyed.keys], by simp [Keyed.keys]⟩
    · exact .cons ⟨rfl, rfl⟩ .nil
  · refine ⟨fun _ hnote => ?_, Registry.told_same rfl rfl, [], ?_, .nil⟩
    · cases hnote
    · rw [List.append_nil]
      exact hentries

/-- An input that is used as a file. -/
theorem artifactFor_told (target : String) (h : d.Named P names done)
    {parameters : List String} {place : String}
    {argument : Argument} {artifact : ArtifactSource}
    (hyields : (d.artifactFor s parameters place argument).Yields P (artifact, d')) :
    Told target names (d.artifactFor s parameters place argument).notes d d' ∧
      d'.Named P names done := by
  -- Literals and inputs given by value are converted; a file is passed on as it is and tells
  -- nothing.
  cases argument with
  | literal text => exact convert_told target h hyields
  | graphInput input declared =>
    unfold Draft.artifactFor at hyields ⊢
    dsimp only at hyields ⊢
    split at hyields
    next hmem =>
      rw [if_pos hmem]
      have hused : Draft.Named P names { d with parameters := insertNew d.parameters input } done :=
        h.congr rfl rfl
      obtain ⟨htold, hnamed⟩ := convert_told target hused hyields
      exact ⟨⟨htold.own, htold.components, htold.tasks⟩, hnamed⟩
    next hmem =>
      rw [if_neg hmem]
      obtain ⟨-, rfl⟩ := Recorded.yields_pure_pair hyields
      exact ⟨told_warnings (.of_nil rfl) rfl rfl, h.congr rfl rfl⟩
  | taskOutput source =>
    unfold Draft.artifactFor at hyields ⊢
    obtain ⟨task, -, hyields, hnotes⟩ := Recorded.yields_lift_notes hyields
    obtain ⟨-, rfl⟩ := Recorded.yields_pure_pair hyields
    rw [hnotes]
    exact ⟨told_nil _ _ _, h⟩

/-- The inputs that are used as files. -/
theorem bindArtifacts_told (target : String) (h : d.Named P names done) {b : Binder}
    {inputs : List String}
    {bindings : Keyed ArtifactSource}
    (hyields : (b.bindArtifacts s inputs d).Yields P (bindings, d')) :
    Told target names (b.bindArtifacts s inputs d).notes d d' ∧ d'.Named P names done := by
  -- By induction on the inputs; conversions tell of themselves, and arguments warn at most.
  induction inputs generalizing d bindings with
  | nil =>
    obtain ⟨-, rfl⟩ := Recorded.yields_pure_pair hyields
    exact ⟨told_nil _ _ _, h⟩
  | cons name rest ih =>
    unfold Binder.bindArtifacts at hyields ⊢
    obtain ⟨input, -, hyields, hnotes₁⟩ := Recorded.yields_lift_notes hyields
    obtain ⟨argument, -, hyields, hnotes₂⟩ := Recorded.yields_bind_notes hyields
    obtain ⟨⟨source, d₁⟩, hsource, hyields, hnotes₃⟩ :=
      Recorded.yields_bind_notes hyields
    obtain ⟨⟨others, d₂⟩, hrest, hyields, hnotes₄⟩ := Recorded.yields_bind_notes hyields
    obtain ⟨-, rfl⟩ := Recorded.yields_pure_pair hyields
    obtain ⟨htold, hnamed⟩ := artifactFor_told target h hsource
    obtain ⟨htold', hnamed'⟩ := ih hnamed hrest
    refine ⟨?_, hnamed'⟩
    rw [hnotes₁, hnotes₂, hnotes₃, hnotes₄]
    have hwarnings : Told target names (input.argument b.arguments b.id).notes d d :=
      told_warnings (bound_onlyWarns _ _ _ _) rfl rfl
    exact hwarnings.append (htold.append (htold'.append (told_nil _ _ _)))

/-- An input that is used as a parameter changes no parts. -/
theorem parameterFor_quiet {type : Value} {place : String} {argument : Argument}
    {source : ParameterSource}
    (hyields : (d.parameterFor type place argument).Yields P (source, d')) :
    (d.parameterFor type place argument).OnlyWarns ∧ d'.components = d.components ∧
      d'.tasks = d.tasks ∧ d'.taskNames = d.taskNames := by
  cases argument with
  | literal text =>
    unfold Draft.parameterFor at hyields ⊢
    dsimp only at hyields ⊢
    obtain ⟨-, rfl⟩ := Recorded.yields_pure_pair hyields.of_when
    -- A constant may be warned of, in a sentence that begins with a capital letter.
    refine ⟨.ite (.bind (Recorded.onlyWarns_warn ?_) fun _ => .of_nil rfl) (.of_nil rfl), rfl,
      rfl, rfl⟩
    exact isCapitalized_append (isCapitalized_append (isCapitalized_append
      (isCapitalized_append (by decide) _) _) _) _
  | graphInput input declared =>
    obtain ⟨-, rfl⟩ := Recorded.yields_pure_pair hyields
    exact ⟨.of_nil rfl, rfl, rfl, rfl⟩
  | taskOutput output =>
    unfold Draft.parameterFor at hyields ⊢
    obtain ⟨task, -, hyields⟩ := Recorded.yields_bind.mp hyields
    obtain ⟨-, rfl⟩ := Recorded.yields_pure_pair hyields
    exact ⟨.bind (.of_nil rfl) fun _ => .of_nil rfl, rfl, rfl, rfl⟩

/-- The inputs that are used as parameters. -/
theorem bindParameters_told (target : String) (h : d.Named P names done) {b : Binder}
    {inputs : List String}
    {bindings : Keyed ParameterSource}
    (hyields : (b.bindParameters inputs d).Yields P (bindings, d')) :
    Told target names (b.bindParameters inputs d).notes d d' ∧ d'.Named P names done := by
  -- By induction on the inputs; a binding at most warns.
  induction inputs generalizing d bindings with
  | nil =>
    obtain ⟨-, rfl⟩ := Recorded.yields_pure_pair hyields
    exact ⟨told_nil _ _ _, h⟩
  | cons name rest ih =>
    unfold Binder.bindParameters at hyields ⊢
    obtain ⟨input, -, hyields, hnotes₁⟩ := Recorded.yields_lift_notes hyields
    obtain ⟨argument, -, hyields, hnotes₂⟩ := Recorded.yields_bind_notes hyields
    obtain ⟨⟨source, d₁⟩, hsource, hyields, hnotes₃⟩ :=
      Recorded.yields_bind_notes hyields
    obtain ⟨⟨others, d₂⟩, hrest, hyields, hnotes₄⟩ := Recorded.yields_bind_notes hyields
    obtain ⟨-, rfl⟩ := Recorded.yields_pure_pair hyields
    obtain ⟨hwarns, hcomponents, htasks, hnames⟩ := parameterFor_quiet hsource
    obtain ⟨htold, hnamed⟩ := ih (h.congr htasks hnames) hrest
    refine ⟨?_, hnamed⟩
    rw [hnotes₁, hnotes₂, hnotes₃, hnotes₄]
    have hwarnings : Told target names (input.argument b.arguments b.id).notes d d :=
      told_warnings (bound_onlyWarns _ _ _ _) rfl rfl
    exact hwarnings.append ((told_warnings hwarns hcomponents htasks).append
      (htold.append (told_nil _ _ _)))

/-! ### Tasks -/

variable (hdistinct : ∀ id id' name, Keyed.find? names id = some name →
  Keyed.find? names id' = some name → id = id')

include hdistinct in
/-- **A task**: its component, if that is new, the tasks that make artifacts for it, and itself. -/
theorem addTask_told (h : d.Named P names done) {b : Binder} (hid : b.id ∉ done)
    {container : Container} (hyields : (addTask s b container d).Yields P d') :
    Told target names (addTask s b container d).notes d d' ∧
      d'.Named P names (done ++ [b.id]) := by
  unfold addTask at hyields ⊢
  obtain ⟨line, -, hyields, hnotes₁⟩ := Recorded.yields_lift_notes hyields
  obtain ⟨⟨executor, d₁⟩, hadd, hyields, hnotes₂⟩ := Recorded.yields_bind_notes hyields
  obtain ⟨types, -, hyields, hnotes₃⟩ := Recorded.yields_lift_notes hyields
  obtain ⟨⟨component, d₂⟩, hadd', hyields, hnotes₄⟩ :=
    Recorded.yields_bind_notes hyields
  obtain ⟨⟨parameters, d₃⟩, hparameters, hyields, hnotes₅⟩ :=
    Recorded.yields_bind_notes hyields
  obtain ⟨⟨artifacts, d₄⟩, hartifacts, hyields, hnotes₆⟩ :=
    Recorded.yields_bind_notes hyields
  obtain ⟨caching, -, hyields, hnotes₇⟩ := Recorded.yields_lift_notes hyields
  obtain ⟨name, hname, hyields, hnotes₈⟩ := Recorded.yields_lift_notes hyields
  obtain ⟨u, -, hyields, hnotes₉⟩ := Recorded.yields_bind_notes hyields
  obtain rfl := Recorded.yields_pure.mp hyields
  obtain ⟨hsilent, hcomponents, htasks, hnames⟩ := addExecutor_quiet hadd
  obtain ⟨htold₂, htasks', hnames'⟩ := addComponent_told target names hadd'
  have hnamed₂ : d₂.Named P names done := (h.congr htasks hnames).congr htasks' hnames'
  obtain ⟨htold₃, hnamed₃⟩ := bindParameters_told target hnamed₂ hparameters
  obtain ⟨htold₄, hnamed₄⟩ := bindArtifacts_told target hnamed₃ hartifacts
  have hname := fetch_eq_ok.mp hname
  rw [hnamed₄.taskNames] at hname
  -- The notes are those of the parts in turn, and the last one is the event of the task itself.
  refine ⟨?_, hnamed₄.define hdistinct hid hname _⟩
  rw [hnotes₁, hnotes₂, hsilent, hnotes₃, hnotes₄, hnotes₅, hnotes₆, hnotes₇,
    hnotes₈, hnotes₉]
  have hexecutor : Told target names [] d d₁ :=
    told_same (fun _ hnote => nomatch hnote) rfl (fun _ hevent => nomatch hevent) hcomponents htasks
  refine hexecutor.append (htold₂.append (htold₃.append (htold₄.append (Told.append ?_
    (told_nil _ _ _)))))
  refine ⟨fun note hnote => ?_, Registry.told_same rfl rfl, _,
    Registry.define_entries (hnamed₄.isNew hdistinct hid hname) _, ?_⟩
  · rw [List.mem_singleton.mp hnote]
    exact ⟨by decide, by decide, by simp [Keyed.keys], by simp [Keyed.keys]⟩
  · exact .cons ⟨rfl, rfl, hname⟩ .nil

include hdistinct in
/-- A task of a graph, which is a container. -/
theorem compileTask_told (target : String) (h : d.Named P names done)
    {inputs : List String} {id : String}
    (hid : id ∉ done) {task : GraphTask}
    (hyields : (compileTask s inputs id task d).Yields P d') :
    Told target names (compileTask s inputs id task d).notes d d' ∧
      d'.Named P names (done ++ [id]) := by
  unfold compileTask at hyields ⊢
  split at hyields
  next => exact absurd hyields Recorded.not_yields_throw
  next component hspec =>
    split at hyields
    next => exact absurd hyields Recorded.not_yields_throw
    next container hcontainer => exact addTask_told hdistinct h hid hyields

include hdistinct in
/-- **The tasks of a graph** are told of in their order. -/
theorem compileTasks_told {g : Graph} {inputs order : List String} (h : d.Named P names done)
    (hnodup : (done ++ order).Nodup) (hyields : (compileTasks s g inputs order d).Yields P d') :
    Told target names (compileTasks s g inputs order d).notes d d' := by
  -- By induction on the order, with the names of the tasks that have been told of.
  induction order generalizing d done with
  | nil =>
    obtain rfl := Recorded.yields_pure.mp hyields
    exact told_nil _ _ _
  | cons id rest ih =>
    unfold compileTasks at hyields ⊢
    obtain ⟨task, -, hyields, hnotes₁⟩ := Recorded.yields_lift_notes hyields
    obtain ⟨d₁, hd₁, hyields, hnotes₂⟩ := Recorded.yields_bind_notes hyields
    have hid : id ∉ done := fun hmem =>
      (List.nodup_append.mp hnodup).2.2 id hmem id List.mem_cons_self rfl
    obtain ⟨htold, hnamed⟩ :=
      compileTask_told hdistinct target h hid (Recorded.yields_within.mp hd₁)
    rw [List.append_cons] at hnodup
    rw [hnotes₁, hnotes₂]
    exact Told.append htold (ih hnamed hnodup hyields)

/-! ### Whole pipelines -/

/-- The draft with which a graph begins. -/
theorem named_start {order : List String} (hok : (Draft.empty s.policy).reserveAll order = .ok d) :
    d.Named P (emittedNames s order) [] ∧ d.components.entries = [] ∧ d.tasks.entries = [] := by
  obtain ⟨-, hemitted⟩ := start_spec (P := P) hok
  rw [reserveAll_eq] at hok
  obtain ⟨⟨given, a⟩, hgiven, rfl⟩ := map_eq_ok.mp hok
  obtain ⟨hreserved, -⟩ := reserveAll_spec (reserved_empty s) hgiven
  rw [← hemitted]
  exact ⟨{
    taskNames := rfl
    sound := hreserved.sound rfl
    reserved := fun id name hname => ⟨hreserved.used id name hname, hreserved.not_kept name⟩
    defined := fun _ hname => nomatch hname }, rfl, rfl⟩

/-- The graph of a pipeline. -/
theorem compileGraph_told (target : String) {c : Component} {g : Graph} {root : Root}
    (hyields : (compileGraph s c g).Yields P (root, d)) :
    ∃ order start, g.order c.inputNames = .ok order ∧
      Told target (emittedNames s order) (compileGraph s c g).notes start d ∧
      start.components.entries = [] ∧ start.tasks.entries = [] ∧
        root.tasks = d.tasks.entries := by
  unfold compileGraph at hyields ⊢
  obtain ⟨order, horder, hyields, hnotes₁⟩ := Recorded.yields_lift_notes hyields
  dsimp only at hyields hnotes₁
  obtain ⟨hyields, hnotes₂⟩ := Recorded.yields_unless_notes hyields
  obtain ⟨start, hstart, hyields, hnotes₃⟩ := Recorded.yields_lift_notes hyields
  obtain ⟨d', hrun, hyields, hnotes₄⟩ := Recorded.yields_bind_notes hyields
  obtain ⟨parameters, -, hyields, hnotes₅⟩ := Recorded.yields_lift_notes hyields
  obtain ⟨outputs, -, hyields, hnotes₆⟩ := Recorded.yields_lift_notes hyields
  obtain ⟨rfl, rfl⟩ := Recorded.yields_pure_pair hyields
  obtain ⟨hnamed, hcomponents, htasks⟩ := named_start (P := P) hstart
  have hnodup : ([] ++ order).Nodup := (order_planned horder).nodup
  refine ⟨order, start, horder, ?_, hcomponents, htasks, rfl⟩
  -- All notes are those of the tasks: no other step tells of anything.
  rw [hnotes₁, hnotes₂, hnotes₃, hnotes₄, hnotes₅, hnotes₆]
  exact (compileTasks_told (fun _ _ _ => emittedNames_inj) hnamed hnodup hrun).append
    (told_nil _ _ _)

/-- The values of the inputs of a pipeline. -/
theorem rootConstants_onlyWarns (c : Component) (texts : Keyed String)
    (types : Keyed PrimitiveType) : (rootConstants c texts types).OnlyWarns := by
  induction types with
  | nil => exact .of_nil rfl
  | cons entry rest ih =>
    refine .bind (.of_nil rfl) fun input => .bind (bound_onlyWarns _ _ _ _) fun text => ?_
    refine .ite (.bind (Recorded.onlyWarns_warn ?_) fun _ => .bind ih fun _ => .of_nil rfl)
      (.bind ih fun _ => .of_nil rfl)
    exact isCapitalized_append (isCapitalized_append (isCapitalized_append (isCapitalized_append
      (isCapitalized_append (by decide) _) _) _) _) _

/-- The document of a job lists its components and its tasks under their names. -/
theorem keysAt_job (job : Job) :
    job.toValue.keysAt ["pipelineSpec", "components"] = asFields (Keyed.keys job.components) ∧
      job.toValue.keysAt ["pipelineSpec", "root", "dag", "tasks"] =
        asFields (Keyed.keys job.root.tasks) := by
  have hcomponents : job.toValue.under? ["pipelineSpec", "components"] =
      some (.ofFields (Keyed.mapValues ComponentEntry.toValue job.components)) := rfl
  have htasks : job.toValue.under? ["pipelineSpec", "root", "dag", "tasks"] =
      some (.ofFields (Keyed.mapValues JobTask.toValue job.root.tasks)) := rfl
  rw [Value.keysAt, hcomponents, Value.keysAt, htasks]
  simp [Value.ofFields, Keyed.mapValues, asFields, Keyed.keys]

/-- The events of a compilation tell the components and the tasks of a job, whose graph has tasks
    with the names `names`: the events for components name them in their order, and so do the events
    for tasks. -/
structure Traced (names : Keyed String) (job : Job) (events : List (Keyed Value)) : Prop where
  components : reports "component allocated" "component" events =
    job.toValue.keysAt ["pipelineSpec", "components"]
  tasks : List.Forall₂ (TellsTask names) (events.filter (IsTaskEvent ·)) job.root.tasks
  listed : job.toValue.keysAt ["pipelineSpec", "root", "dag", "tasks"] =
    asFields (Keyed.keys job.root.tasks)

/-- The note with which a compilation ends. -/
def emitted (d : Draft) : Note :=
  .event "" "INFO" "pipeline job emitted"
    [ ("executors", .int d.executors.entries.length),
      ("components", .int d.components.entries.length),
      ("tasks", .int d.tasks.entries.length) ]

/-- The last event adds nothing. -/
theorem told_emitted (d : Draft) : Told target names [emitted d] d d := by
  refine told_same (fun note hnote => ?_) rfl (fun event hevent => ?_) rfl rfl
  · rw [List.mem_singleton.mp hnote]
    exact ⟨by decide, by decide, by simp [Keyed.keys], by simp [Keyed.keys]⟩
  · rw [List.mem_singleton.mp hevent]
    unfold IsTaskEvent
    rw [emitted, Note.eventFor, textAt?_message (by simp [Keyed.keys])]
    decide

/-- **The events of a whole compilation** tell the components and the tasks of the job. -/
theorem compile_traced {context : Context} {c : Component} {arguments : Keyed Value}
    {outputDirectory contextName : String} {job : Job}
    (hyields : (compile context c arguments outputDirectory contextName).Yields P job)
    (target : String) :
    (∀ note ∈ (compile context c arguments outputDirectory contextName).notes, note.IsOwn) ∧
      ∃ s g order, context.settings = .ok s ∧ asGraph c = .ok g ∧
        g.order c.inputNames = .ok order ∧
        Traced (emittedNames s order) job
          (eventsOf target (compile context c arguments outputDirectory contextName).notes) := by
  unfold compile at hyields ⊢
  obtain ⟨s, hs, hyields, hnotes₁⟩ := Recorded.yields_lift_notes hyields
  obtain ⟨limit, -, hyields, hnotes₂⟩ := Recorded.yields_lift_notes hyields
  obtain ⟨g, hg, hyields, hnotes₃⟩ := Recorded.yields_lift_notes hyields
  obtain ⟨⟨root, d⟩, hgraph, hyields, hnotes₄⟩ := Recorded.yields_bind_notes hyields
  obtain ⟨limit', -, hyields, hnotes₅⟩ := Recorded.yields_lift_notes hyields
  obtain ⟨sdkVersion, -, hyields, hnotes₆⟩ := Recorded.yields_lift_notes hyields
  obtain ⟨schemaVersion, -, hyields, hnotes₇⟩ := Recorded.yields_lift_notes hyields
  obtain ⟨texts, -, hyields, hnotes₈⟩ := Recorded.yields_bind_notes hyields
  obtain ⟨parameters, -, hyields, hnotes₉⟩ := Recorded.yields_bind_notes hyields
  obtain ⟨u, -, hyields, hnotes₁₀⟩ := Recorded.yields_bind_notes hyields
  obtain rfl := Recorded.yields_pure.mp hyields
  obtain ⟨order, start, horder, hgraph, hcomponents, htasks, hroot⟩ :=
    compileGraph_told target hgraph
  rw [hnotes₁, hnotes₂, hnotes₃, hnotes₄, hnotes₅, hnotes₆, hnotes₇, hnotes₈,
    hnotes₉, hnotes₁₀]
  -- nothing is added once the graph is compiled
  have hemitted : Told target (emittedNames s order) [emitted d] d d := told_emitted d
  have htold := hgraph.append
    ((told_warnings (rootTexts_onlyWarns c arguments) rfl rfl).append
      ((told_warnings (rootConstants_onlyWarns c texts root.parameters) rfl rfl).append hemitted))
  refine ⟨htold.own, s, g, order, hs, hg, horder, ?_, ?_, (keysAt_job _).2⟩
  · obtain ⟨added, hkeys, hreports⟩ := htold.components.names
    rw [hcomponents] at hkeys
    rw [(keysAt_job _).1]
    exact hreports.trans (congrArg asFields hkeys.symm)
  · obtain ⟨added, hentries, hevents⟩ := htold.tasks
    rw [htasks, List.nil_append] at hentries
    obtain rfl := hentries
    rw [hroot]
    exact hevents

end PipelineCompiler.Vertex
