import PipelineCompiler.Proofs.Graph.Order
import PipelineCompiler.Proofs.Vertex.Outline
import PipelineCompiler.Vertex.Draft

namespace PipelineCompiler.Vertex

/-!
# How the parts of a job refer to each other

* `Parts`, `Parts.Within` — the parts of a job or of a draft, which only grow;
* `JobTask.links`, `JobTask.pipelineInputs` — what the inputs of a task are bound to;
* `mem_dependencies` — the dependencies of a task are the tasks that it has links to;
* `Fits`, `Supplies` — a task binds the inputs of its component, and its links lead to outputs;
* `MadeFrom` — an artifact that is made of a text or of an input of the pipeline.
-/

/-! ### Sources -/

/-- The output of a task that a parameter comes from. -/
def ParameterSource.link? : ParameterSource → Option (String × String)
  | .taskOutput task output => some (task, output)
  | _ => none

/-- The output of a task that an artifact comes from. -/
def ArtifactSource.link? : ArtifactSource → Option (String × String)
  | .taskOutput task output => some (task, output)
  | .pipelineInput _ => none

/-- The input of the pipeline that a parameter comes from. -/
def ParameterSource.pipelineInput? : ParameterSource → Option String
  | .pipelineInput name => some name
  | _ => none

/-- The input of the pipeline that an artifact comes from. -/
def ArtifactSource.pipelineInput? : ArtifactSource → Option String
  | .pipelineInput name => some name
  | .taskOutput _ _ => none

namespace JobTask

/-- The outputs of tasks that the inputs of a task are bound to. -/
def links (task : JobTask) : List (String × String) :=
  task.parameters.filterMap (·.2.link?) ++ task.artifacts.filterMap (·.2.link?)

/-- The inputs of the pipeline that the input parameters of a task are bound to. -/
def pipelineInputs (task : JobTask) : List String :=
  task.parameters.filterMap (·.2.pipelineInput?)

end JobTask

/-- The task of a link is the one that the parameter comes from. -/
theorem parameterProducer_eq (source : ParameterSource) :
    source.producer? = source.link?.map (·.1) := by
  cases source with
  | constant | pipelineInput | taskOutput => rfl

/-- The same for an artifact. -/
theorem artifactProducer_eq (source : ArtifactSource) :
    source.producer? = source.link?.map (·.1) := by
  cases source with
  | pipelineInput | taskOutput => rfl

/-- **The dependencies of a task** are the tasks that it has links to. -/
theorem mem_dependencies {task : JobTask} {name : String} :
    name ∈ task.dependencies ↔ ∃ output, (name, output) ∈ task.links := by
  unfold JobTask.dependencies JobTask.links
  rw [mem_sortedTexts]
  simp only [List.mem_append, List.mem_filterMap, parameterProducer_eq, artifactProducer_eq,
    Option.map_eq_some_iff]
  constructor
  · rintro (⟨entry, hentry, ⟨_, output⟩, hlink, rfl⟩ | ⟨entry, hentry,
      ⟨_, output⟩, hlink, rfl⟩)
    · exact ⟨output, .inl ⟨entry, hentry, hlink⟩⟩
    · exact ⟨output, .inr ⟨entry, hentry, hlink⟩⟩
  · rintro ⟨output, ⟨entry, hentry, hlink⟩ | ⟨entry, hentry, hlink⟩⟩
    · exact .inl ⟨entry, hentry, _, hlink, rfl⟩
    · exact .inr ⟨entry, hentry, _, hlink, rfl⟩

/-! ### Parts that grow -/

/-- The parts of a job by name. -/
structure Parts where
  executors : Keyed Launch
  components : Keyed ComponentEntry
  tasks : Keyed JobTask

/-- The parts made so far. -/
def Draft.parts (d : Draft) : Parts :=
  { executors := d.executors.entries
    components := d.components.entries
    tasks := d.tasks.entries }

/-- The parts of a job. -/
def Job.parts (j : Job) : Parts :=
  { executors := j.executors, components := j.components, tasks := j.root.tasks }

/-- Whatever is found among some parts is found among others. -/
structure Parts.Within (p p' : Parts) : Prop where
  executors : Keyed.Within p.executors p'.executors
  components : Keyed.Within p.components p'.components
  tasks : Keyed.Within p.tasks p'.tasks

/-- A task binds exactly the inputs of its component. -/
def Fits (components : Keyed ComponentEntry) (task : JobTask) : Prop :=
  ∃ component, Keyed.find? components task.component = some component ∧
    (∀ name, name ∈ Keyed.keys task.parameters ↔ name ∈ Keyed.keys component.parameters) ∧
    ∀ name, name ∈ Keyed.keys task.artifacts ↔ name ∈ component.artifacts

/-- A link leads to an output that is declared by the component of a task. -/
def Supplies (components : Keyed ComponentEntry) (tasks : Keyed JobTask)
    (link : String × String) : Prop :=
  ∃ task component, Keyed.find? tasks link.1 = some task ∧
    Keyed.find? components task.component = some component ∧ link.2 ∈ component.outputs

/-- The task with a name makes an artifact of a parameter: it is a conversion, its component is
    that of conversions, and it runs what conversions run. -/
def MadeFrom (s : Settings) (p : Parts) (name : String) (source : ParameterSource) : Prop :=
  ∃ component executor launch conversion caching,
    Keyed.find? p.tasks name = some (.conversion component source caching) ∧
    Keyed.find? p.components component = some (.conversion executor) ∧
    Keyed.find? p.executors executor = some launch ∧ Draft.conversionLaunch s = .ok conversion ∧
    SameRecord executorDocument launch conversion

/-- Components that were added change nothing for a task. -/
theorem Fits.mono {components components' : Keyed ComponentEntry}
    (hw : Keyed.Within components components') {task : JobTask} (h : Fits components task) :
    Fits components' task := by
  obtain ⟨component, hfind, hnames⟩ := h
  exact ⟨component, hw _ _ hfind, hnames⟩

/-- Parts that were added change nothing for a link. -/
theorem Supplies.mono {components components' : Keyed ComponentEntry}
    {tasks tasks' : Keyed JobTask} (hcomponents : Keyed.Within components components')
    (htasks : Keyed.Within tasks tasks') {link : String × String}
    (h : Supplies components tasks link) : Supplies components' tasks' link := by
  obtain ⟨task, component, htask, hcomponent, hmem⟩ := h
  exact ⟨task, component, htasks _ _ htask, hcomponents _ _ hcomponent, hmem⟩

/-- Parts that were added change nothing for an artifact. -/
theorem MadeFrom.mono {s : Settings} {p p' : Parts} (hw : p.Within p') {name : String}
    {source : ParameterSource} (h : MadeFrom s p name source) : MadeFrom s p' name source := by
  obtain ⟨component, executor, launch, conversion, caching, htask, hcomponent,
    hexecutor, hrest⟩ := h
  exact ⟨component, executor, launch, conversion, caching, hw.tasks _ _ htask,
    hw.components _ _ hcomponent, hw.executors _ _ hexecutor, hrest⟩

/-- The artifact that is made is an output of its task. -/
theorem MadeFrom.supplies {s : Settings} {p : Parts} {name : String} {source : ParameterSource}
    (h : MadeFrom s p name source) : Supplies p.components p.tasks (name, conversionOutput) := by
  obtain ⟨component, executor, launch, conversion, caching, htask, hcomponent, -⟩ := h
  exact ⟨_, _, htask, hcomponent, List.mem_singleton.mpr rfl⟩

end PipelineCompiler.Vertex
