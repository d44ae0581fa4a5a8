import PipelineCompiler.Proofs.Success
import PipelineCompiler.Proofs.Vertex.Parts

namespace PipelineCompiler.Vertex

/-!
# What holds while the tasks of a job are compiled

* `Draft.Sound` — the invariant of a draft;
* `Draft.Grows` — what no step takes back;
* `Draft.Sound.withComponent` — an executor and a component that refers to it are added;
* `Draft.Sound.append` — a task is added;
* `Draft.Sound.settle` — what waited for a task does not wait any more;
* `Draft.Sound.define`, `Draft.Sound.share` — a task of the graph and a conversion.

A component is added before the task that refers to it, and between the two there may be
conversions.  The invariant knows the components that wait for their tasks, and the inputs of the
pipeline that wait for theirs.
-/

variable {P : String → Prop} {s : Settings}

/-- The parameters of a task never come from tasks, and its artifacts always do. -/
structure JobTask.IsProper (task : JobTask) : Prop where
  parameters : ∀ parameter ∈ task.parameters, parameter.2.link? = none
  artifacts : ∀ artifact ∈ task.artifacts, artifact.2.pipelineInput? = none

/-- What holds while a graph is compiled.  The tasks `done` are compiled, no task refers to the
    components `pending` yet, and none is bound to the inputs `inputs` of the pipeline yet. -/
structure Draft.Sound (P : String → Prop) (d : Draft) (done pending inputs : List String) :
    Prop where
  executors : d.executors.Sound P executorDocument
  components : d.components.Sound P ComponentEntry.toValue
  executorsComplete : d.executors.Complete executorDocument
  componentsComplete : d.components.Complete ComponentEntry.toValue
  tasks : d.tasks.Sound P JobTask.toValue
  labelled : ∀ entry ∈ d.components.entries, entry.2.executor ∈ Keyed.keys d.executors.entries
  executorsUsed : ∀ name ∈ Keyed.keys d.executors.entries,
    ∃ entry ∈ d.components.entries, entry.2.executor = name
  componentsUsed : ∀ name ∈ Keyed.keys d.components.entries,
    name ∈ pending ∨ ∃ entry ∈ d.tasks.entries, entry.2.component = name
  fits : ∀ entry ∈ d.tasks.entries, Fits d.components.entries entry.2
  supplied : Chained (fun earlier entry => ∀ link ∈ entry.2.links,
    Supplies d.components.entries earlier link) d.tasks.entries
  proper : ∀ entry ∈ d.tasks.entries, entry.2.IsProper
  /-- The names of the tasks of the graph are in use, and never those of conversions. -/
  reserved : ∀ id name, Keyed.find? d.taskNames id = some name →
    name ∈ d.tasks.names.used ∧ name ∉ d.tasks.names.keptNames
  distinct : ∀ id id' name, Keyed.find? d.taskNames id = some name →
    Keyed.find? d.taskNames id' = some name → id = id'
  defined : ∀ name ∈ Keyed.keys d.tasks.entries,
    name ∈ d.tasks.names.keptNames ∨ ∃ id ∈ done, Keyed.find? d.taskNames id = some name
  noArtifacts : d.artifacts = []
  inputsUsed : ∀ name ∈ d.parameters,
    name ∈ inputs ∨ ∃ entry ∈ d.tasks.entries, name ∈ entry.2.pipelineInputs
  inputsRecorded : ∀ entry ∈ d.tasks.entries, ∀ name ∈ entry.2.pipelineInputs,
    name ∈ d.parameters

/-- What no step on a draft takes back. -/
structure Draft.Grows (d d' : Draft) : Prop where
  executors : d.executors.Grows d'.executors
  components : d.components.Grows d'.components
  tasks : d.tasks.Grows d'.tasks
  taskNames : d'.taskNames = d.taskNames
  parameters : ∀ name ∈ d.parameters, name ∈ d'.parameters

namespace Draft

variable {d d' : Draft} {done pending inputs : List String}

/-- Nothing is done. -/
theorem Grows.refl (d : Draft) : d.Grows d := ⟨.refl _, .refl _, .refl _, rfl, fun _ h => h⟩

/-- Steps one after another. -/
theorem Grows.trans {d₁ d₂ d₃ : Draft} (h : d₁.Grows d₂) (h' : d₂.Grows d₃) :
    d₁.Grows d₃ where
  executors := h.executors.trans h'.executors
  components := h.components.trans h'.components
  tasks := h.tasks.trans h'.tasks
  taskNames := h'.taskNames.trans h.taskNames
  parameters := fun name hname => h'.parameters name (h.parameters name hname)

/-- The parts of a draft that has grown. -/
theorem Grows.parts (h : d.Grows d') : d.parts.Within d'.parts :=
  ⟨h.executors.within, h.components.within, h.tasks.within⟩

/-- Tasks that are added are a growth of the draft. -/
theorem grows_withTasks {tasks : Registry JobTask} (hgrows : d.tasks.Grows tasks) :
    d.Grows { d with tasks } := { Grows.refl d with tasks := hgrows }

/-! ### Components -/

/-- **An executor and a component that refers to it** may be added, or shared.  The component waits
    for a task. -/
theorem Sound.withComponent (h : d.Sound P done pending inputs) {launch : Launch}
    {entry : ComponentEntry} {executor component : String} {executors : Registry Launch}
    {components : Registry ComponentEntry}
    (hexecutor : Registry.Shared P executorDocument d.executors launch executor executors)
    (hcomponent : Registry.Shared P ComponentEntry.toValue d.components entry component components)
    (hentry : entry.executor = executor)
    (hsame : ∀ found, SameRecord ComponentEntry.toValue found entry →
      found.executor = executor) :
    Sound P { d with executors, components } done (component :: pending) inputs ∧
      d.Grows { d with executors, components } := by
  have hgrows : d.Grows { d with executors, components } :=
    { Grows.refl d with executors := hexecutor.grows, components := hcomponent.grows }
  have hkey : executor ∈ Keyed.keys executors.entries := by
    obtain ⟨found, hfind, -⟩ := hexecutor.found
    exact Keyed.mem_keys_of_find? hfind
  -- What is new is the executor, which the component refers to, and the component, which is pending
  -- until a task uses it.
  refine ⟨{ h with
    executors := hexecutor.sound
    components := hcomponent.sound
    executorsComplete := hexecutor.complete h.executorsComplete
    componentsComplete := hcomponent.complete h.componentsComplete
    labelled := fun e he => ?_
    executorsUsed := fun name hname => ?_
    componentsUsed := fun name hname => ?_
    fits := fun e he => (h.fits e he).mono hcomponent.grows.within
    supplied := h.supplied.imp fun earlier e hlinks link hlink =>
      (hlinks link hlink).mono hcomponent.grows.within (.refl _) }, hgrows⟩
  · rcases hcomponent.entries e he with hold | rfl
    · obtain ⟨v, hv⟩ := Keyed.exists_find?_of_mem_keys (h.labelled e hold)
      exact Keyed.mem_keys_of_find? (hexecutor.grows.within _ _ hv)
    · rw [hentry]
      exact hkey
  · obtain ⟨e, he, rfl⟩ := List.mem_map.mp hname
    rcases hexecutor.entries e he with hold | rfl
    · obtain ⟨user, huser, heq⟩ := h.executorsUsed _ (List.mem_map_of_mem (f := (·.1)) hold)
      exact ⟨user, hcomponent.grows.mem h.components.nodup user huser, heq⟩
    · obtain ⟨found, hfind, hfound⟩ := hcomponent.found
      exact ⟨_, Keyed.mem_of_find? hfind, hsame found hfound⟩
  · obtain ⟨e, he, rfl⟩ := List.mem_map.mp hname
    rcases hcomponent.entries e he with hold | rfl
    · rcases h.componentsUsed _ (List.mem_map_of_mem (f := (·.1)) hold) with hpending | hused
      · exact .inl (List.mem_cons_of_mem _ hpending)
      · exact .inr hused
    · exact .inl List.mem_cons_self

/-! ### Tasks -/

/-- **A task** may be added when it binds the inputs of its component, when its links lead to
    outputs of earlier tasks, and when its inputs of the pipeline are recorded. -/
theorem Sound.append (h : d.Sound P done pending inputs) {tasks : Registry JobTask} {name : String}
    {task : JobTask} {done' : List String} (hsound : tasks.Sound P JobTask.toValue)
    (hentries : tasks.entries = d.tasks.entries ++ [(name, task)])
    (hreserved : ∀ id n, Keyed.find? d.taskNames id = some n →
      n ∈ tasks.names.used ∧ n ∉ tasks.names.keptNames)
    (hkept : ∀ n ∈ d.tasks.names.keptNames, n ∈ tasks.names.keptNames)
    (hdone : ∀ id ∈ done, id ∈ done')
    (hdefined : name ∈ tasks.names.keptNames ∨
      ∃ id ∈ done', Keyed.find? d.taskNames id = some name)
    (hfits : Fits d.components.entries task)
    (hlinks : ∀ link ∈ task.links, Supplies d.components.entries d.tasks.entries link)
    (hproper : task.IsProper)
    (hrecorded : ∀ input ∈ task.pipelineInputs, input ∈ d.parameters) :
    Sound P { d with tasks } done' pending inputs := by
  -- every field follows from what held of the old tasks, and from what is known of the new one
  have hcases : ∀ entry ∈ tasks.entries, entry ∈ d.tasks.entries ∨
    entry = (name, task) := by
    intro entry hentry
    rw [hentries] at hentry
    simpa using hentry
  have hmem : ∀ entry ∈ d.tasks.entries, entry ∈ tasks.entries := by
    intro entry hentry
    rw [hentries]
    exact List.mem_append_left _ hentry
  exact { h with
    tasks := hsound
    componentsUsed := by
      intro n hn
      rcases h.componentsUsed n hn with hpending | ⟨entry, hentry, heq⟩
      · exact .inl hpending
      · exact .inr ⟨entry, hmem entry hentry, heq⟩
    fits := by
      intro entry hentry
      rcases hcases entry hentry with hold | rfl
      · exact h.fits entry hold
      · exact hfits
    supplied := by
      show Chained _ tasks.entries
      rw [hentries]
      exact h.supplied.concat hlinks
    proper := by
      intro entry hentry
      rcases hcases entry hentry with hold | rfl
      · exact h.proper entry hold
      · exact hproper
    reserved := hreserved
    defined := by
      intro n hn
      obtain ⟨entry, hentry, rfl⟩ := List.mem_map.mp hn
      rcases hcases entry hentry with hold | rfl
      · rcases h.defined _ (List.mem_map_of_mem (f := (·.1)) hold)
          with hold | ⟨id, hid, hfind⟩
        · exact .inl (hkept _ hold)
        · exact .inr ⟨id, hdone id hid, hfind⟩
      · exact hdefined
    inputsUsed := by
      intro n hn
      rcases h.inputsUsed n hn with hpending | ⟨entry, hentry, hmem'⟩
      · exact .inl hpending
      · exact .inr ⟨entry, hmem entry hentry, hmem'⟩
    inputsRecorded := by
      intro entry hentry n hn
      rcases hcases entry hentry with hold | rfl
      · exact h.inputsRecorded entry hold n hn
      · exact hrecorded n hn }

/-- Components and inputs that wait may be exchanged for others, when there are tasks for those
    that do not wait any more. -/
theorem Sound.settle (h : d.Sound P done pending inputs) {pending' inputs' : List String}
    (hpending : ∀ name ∈ pending, name ∈ pending' ∨
      ∃ entry ∈ d.tasks.entries, entry.2.component = name)
    (hinputs : ∀ name ∈ inputs, name ∈ inputs' ∨
      ∃ entry ∈ d.tasks.entries, name ∈ entry.2.pipelineInputs) :
    d.Sound P done pending' inputs' :=
  { h with
    componentsUsed := fun name hname => (h.componentsUsed name hname).elim (hpending name) .inr
    inputsUsed := fun name hname => (h.inputsUsed name hname).elim (hinputs name) .inr }

/-- **A task of the graph** may be added under the name that is reserved for it, after which
    nothing waits any more. -/
theorem Sound.define {component : String} (h : d.Sound P done [component] inputs)
    {id name : String} (hname : Keyed.find? d.taskNames id = some name) (hid : id ∉ done)
    {task : JobTask} (hcomponent : task.component = component)
    (hinputs : ∀ input ∈ inputs, input ∈ task.pipelineInputs)
    (hfits : Fits d.components.entries task)
    (hlinks : ∀ link ∈ task.links, Supplies d.components.entries d.tasks.entries link)
    (hproper : task.IsProper)
    (hrecorded : ∀ input ∈ task.pipelineInputs, input ∈ d.parameters) :
    name ∉ Keyed.keys d.tasks.entries ∧
      Sound P { d with tasks := d.tasks.define name task } (done ++ [id]) [] [] := by
  obtain ⟨hused, hkept⟩ := h.reserved id name hname
  -- the name is not in use for a conversion, nor for another task
  have hnew : name ∉ Keyed.keys d.tasks.entries := by
    intro hmem
    rcases h.defined name hmem with hmem | ⟨other, hother, hfind⟩
    · exact hkept hmem
    · rw [h.distinct id other name hname hfind] at hid
      exact hid hother
  have hentries := Registry.define_entries hnew task
  have hlast : (name, task) ∈ (d.tasks.define name task).entries := by
    rw [hentries]
    exact List.mem_append_right _ List.mem_cons_self
  have hsound := h.append (Registry.define_sound h.tasks hused hnew task) hentries h.reserved
    (fun _ hn => hn) (fun x hx => List.mem_append_left [id] hx)
    (.inr ⟨id, List.mem_append_right _ List.mem_cons_self,
      hname⟩) hfits hlinks hproper hrecorded
  refine ⟨hnew, hsound.settle (fun n hn => ?_) fun n hn => ?_⟩
  · obtain rfl := List.mem_singleton.mp hn
    exact .inr ⟨_, hlast, hcomponent⟩
  · exact .inr ⟨_, hlast, hinputs n hn⟩

/-- An input of the pipeline may be recorded, and waits for a task then. -/
theorem Sound.useInput (h : d.Sound P done pending inputs) (name : String) :
    Sound P { d with parameters := insertNew d.parameters name } done pending (name :: inputs) :=
  { h with
    inputsUsed := by
      intro n hn
      rcases mem_insertNew.mp hn with hold | rfl
      · rcases h.inputsUsed n hold with hpending | hused
        · exact .inl (List.mem_cons_of_mem _ hpending)
        · exact .inr hused
      · exact .inl List.mem_cons_self
    inputsRecorded := fun entry hentry n hn =>
      mem_insertNew.mpr (.inl (h.inputsRecorded entry hentry n hn)) }

/-- A draft with one more input recorded has grown. -/
theorem grows_useInput (d : Draft) (name : String) :
    d.Grows { d with parameters := insertNew d.parameters name } :=
  { Grows.refl d with parameters := fun _ hn => mem_insertNew.mpr (.inl hn) }

/-- **A conversion** may be added, or shared with a conversion of the same source.  Its component
    does not wait any more. -/
theorem Sound.share {component : String} (h : d.Sound P done (component :: pending) inputs)
    {source : ParameterSource} {caching : Bool} {name : String} {tasks : Registry JobTask}
    (hshared : Registry.Shared P JobTask.toValue d.tasks (.conversion component source caching)
      name tasks) (hsource : source.IsText)
    (hfits : Fits d.components.entries (.conversion component source caching))
    (hrecorded : ∀ input, source = .pipelineInput input → input ∈ d.parameters) :
    Sound P { d with tasks } done pending inputs ∧
      ∃ caching',
        Keyed.find? tasks.entries name = some (.conversion component source caching') := by
  obtain ⟨found, hfind, hsame⟩ := hshared.found
  obtain ⟨caching', rfl⟩ := task_of_sameRecord hsource hsame
  have hlink : source.link? = none := by
    cases source with
    | constant | pipelineInput => rfl
    | taskOutput => exact hsource.elim
  have hsound : Sound P { d with tasks } done (component :: pending) inputs := by
    have hreserved : ∀ id n, Keyed.find? d.taskNames id = some n →
        n ∈ tasks.names.used ∧ n ∉ tasks.names.keptNames := by
      intro id n hn
      obtain ⟨hused, hkept⟩ := h.reserved id n hn
      exact ⟨hshared.grows.used n hused, hshared.grows.not_kept hused hkept⟩
    -- a shared conversion changes no task, a new one is a task with one parameter
    rcases hshared.appended with heq | heq
    · exact { h with
        tasks := hshared.sound
        componentsUsed := heq ▸ h.componentsUsed
        fits := heq ▸ h.fits
        supplied := by
          show Chained _ tasks.entries
          rw [heq]
          exact h.supplied
        proper := heq ▸ h.proper
        reserved := hreserved
        defined := fun n hn => (h.defined n (heq ▸ hn)).imp_left (hshared.keptMono n)
        inputsUsed := heq ▸ h.inputsUsed
        inputsRecorded := heq ▸ h.inputsRecorded }
    · refine h.append hshared.sound heq hreserved hshared.keptMono (fun _ hid => hid)
        (.inl hshared.kept) hfits (fun link hmem => ?_) ⟨fun parameter hparameter => ?_,
          fun _ hartifact => (nomatch hartifact)⟩ fun input hinput => ?_
      · simp [JobTask.links, JobTask.parameters, JobTask.artifacts, hlink] at hmem
      · obtain rfl := List.mem_singleton.mp hparameter
        exact hlink
      · refine hrecorded input ?_
        cases source with
        | pipelineInput x =>
          have hx : input = x := by simpa [JobTask.pipelineInputs, JobTask.parameters,
            ParameterSource.pipelineInput?] using hinput
          rw [hx]
        | constant | taskOutput =>
          simp [JobTask.pipelineInputs, JobTask.parameters,
            ParameterSource.pipelineInput?] at hinput
  -- either way a task refers to the component now
  refine ⟨hsound.settle (fun n hn => ?_) fun _ hn => .inl hn, caching', hfind⟩
  rcases List.mem_cons.mp hn with rfl | hn
  · exact .inr ⟨_, Keyed.mem_of_find? hfind, rfl⟩
  · exact .inl hn

end Draft
end PipelineCompiler.Vertex
