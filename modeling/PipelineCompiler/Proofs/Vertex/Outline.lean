import PipelineCompiler.Proofs.Json.Same
import PipelineCompiler.Proofs.Naming.Registry
import PipelineCompiler.Vertex.Job

namespace PipelineCompiler.Vertex

/-!
# What shared parts of a job have in common

Executors, components and conversions are shared when their records have one text.

* `ComponentEntry.Lists`, `lists_of_sameRecord` — components that are shared list the same names
  and refer to one executor;
* `conversion_of_sameRecord` — only the component of the conversion is shared for it;
* `ParameterSource.IsText`, `task_of_sameRecord` — tasks that convert a text or an input of the
  pipeline are shared for what they convert.

Only the order of names may differ, because records are written with their keys in order.
-/

/-! ### Components -/

/-- The names that the document of a component lists, in any order. -/
structure ComponentEntry.Lists (c : ComponentEntry) (parameters artifacts outputs : List String) :
    Prop where
  parameters : ∀ name, name ∈ Keyed.keys c.parameters ↔ name ∈ parameters
  artifacts : ∀ name, name ∈ c.artifacts ↔ name ∈ artifacts
  outputs : ∀ name, name ∈ c.outputs ↔ name ∈ outputs

/-- The keys of documents of parameters. -/
theorem keys_mapValues {α β : Type} (f : α → β) (entries : Keyed α) :
    Keyed.keys (Keyed.mapValues f entries) = Keyed.keys entries := by
  simp [Keyed.keys, Keyed.mapValues]

/-- The keys of documents of artifacts. -/
theorem keys_artifacts (names : List String) :
    Keyed.keys (names.map fun name => (name, artifactDocument)) = names := by
  simp [Keyed.keys, Function.comp_def]

/-- The document of the inputs of a component. -/
def ComponentEntry.inputFields : ComponentEntry → Keyed Value
  | .step parameters artifacts _ _ => [parameterTypes parameters, artifactTypes artifacts]
  | .conversion _ => [parameterTypes [(conversionInput, .string)]]

/-- The fields of the document of a component. -/
def ComponentEntry.fields (c : ComponentEntry) : Keyed Value :=
  [ ("inputDefinitions", .ofFields c.inputFields),
    ("outputDefinitions", .ofFields [artifactTypes c.outputs]),
    ("executorLabel", .str c.executor) ]

/-- The document of a component has these fields. -/
theorem toValue_component (c : ComponentEntry) : c.toValue = .ofFields c.fields := by
  cases c with
  | step | conversion => rfl

/-- No field of a component holds a name. -/
theorem componentFields_unnamed (c : ComponentEntry) :
    ∀ field ∈ c.fields, field.1 ≠ "name" := by
  intro field hfield
  simp only [ComponentEntry.fields, List.mem_cons, List.not_mem_nil, or_false] at hfield
  rcases hfield with rfl | rfl | rfl
  · simp
  · simp
  · simp

variable {a b : ComponentEntry}

/-- Components that are shared have alike documents. -/
theorem alike_of_sameComponent (h : SameRecord ComponentEntry.toValue a b) :
    Alike (.ofFields a.fields) (.ofFields b.fields) := by
  obtain ⟨text, ha, hb⟩ := h
  rw [toValue_component] at ha hb
  exact alike_of_structuralText (componentFields_unnamed a) (componentFields_unnamed b) ha hb

/-- The documents of their inputs. -/
theorem inputFields_alike (h : Alike (.ofFields a.fields) (.ofFields b.fields)) :
    Alike (.ofFields a.inputFields) (.ofFields b.inputFields) :=
  alike_field h (k := "inputDefinitions") (by simp [ComponentEntry.fields])
    (by simp [ComponentEntry.fields])

/-- Only the component of the conversion has no list of input artifacts. -/
theorem not_alike_without_artifacts (h : Alike (.ofFields a.fields) (.ofFields b.fields))
    (artifacts : List String) (ha : artifactTypes artifacts ∈ a.inputFields)
    (hb : ∀ w, ("artifacts", w) ∉ b.inputFields) : False := by
  obtain ⟨w, hw, -⟩ := alike_ofFields (inputFields_alike h) ha
  exact hb w hw

/-- Components that are shared refer to one executor. -/
theorem executor_of_alike (h : Alike (.ofFields a.fields) (.ofFields b.fields)) :
    a.executor = b.executor := by
  have hlabel : Alike (.str a.executor) (.str b.executor) :=
    alike_field h (k := "executorLabel") (by simp [ComponentEntry.fields])
      (by simp [ComponentEntry.fields])
  exact alike_str hlabel

/-- Components that are shared list the same outputs. -/
theorem outputs_of_alike (h : Alike (.ofFields a.fields) (.ofFields b.fields)) (name : String) :
    name ∈ a.outputs ↔ name ∈ b.outputs := by
  have houtputs : Alike (.ofFields [artifactTypes a.outputs])
      (.ofFields [artifactTypes b.outputs]) :=
    alike_field h (k := "outputDefinitions") (by simp [ComponentEntry.fields])
      (by simp [ComponentEntry.fields])
  have hnames : Alike (.ofFields (a.outputs.map fun name => (name, artifactDocument)))
      (.ofFields (b.outputs.map fun name => (name, artifactDocument))) :=
    alike_field houtputs (k := "artifacts") (by simp [artifactTypes]) (by simp [artifactTypes])
  have hkeys := (keys_perm_of_alike hnames).mem_iff (a := name)
  rwa [keys_artifacts, keys_artifacts] at hkeys

/-- Only the component of the conversion is shared for it. -/
theorem conversion_of_sameRecord {executor : String}
    (h : SameRecord ComponentEntry.toValue a (.conversion executor)) :
    a = .conversion executor := by
  have halike := alike_of_sameComponent h
  cases a with
  | step parameters artifacts outputs executor' =>
    exact (not_alike_without_artifacts halike artifacts
      (by simp [ComponentEntry.inputFields])
      (by simp [ComponentEntry.inputFields, parameterTypes])).elim
  | conversion executor' =>
    have hexecutor : executor' = executor := executor_of_alike halike
    rw [hexecutor]

/-- **Components that are shared list the same names.** -/
theorem lists_of_sameRecord {parameters : Keyed PrimitiveType} {artifacts outputs : List String}
    {executor : String}
    (h : SameRecord ComponentEntry.toValue a (.step parameters artifacts outputs executor)) :
    a.Lists (Keyed.keys parameters) artifacts outputs ∧ a.executor = executor := by
  have halike := alike_of_sameComponent h
  have hinputs := inputFields_alike halike
  refine ⟨?_, executor_of_alike halike⟩
  -- A conversion has another executor, so the shared component is a step as well.
  cases a with
  | step parameters' artifacts' outputs' executor' =>
    refine ⟨fun name => ?_, fun name => ?_, outputs_of_alike halike⟩
    · have hparameters : Alike (.ofFields (Keyed.mapValues typeDocument parameters'))
          (.ofFields (Keyed.mapValues typeDocument parameters)) :=
        alike_field hinputs (k := "parameters")
          (by simp [ComponentEntry.inputFields, parameterTypes])
          (by simp [ComponentEntry.inputFields, parameterTypes, artifactTypes])
      have hkeys := (keys_perm_of_alike hparameters).mem_iff (a := name)
      rwa [keys_mapValues, keys_mapValues] at hkeys
    · have hartifacts : Alike (.ofFields (artifacts'.map fun name => (name, artifactDocument)))
          (.ofFields (artifacts.map fun name => (name, artifactDocument))) :=
        alike_field hinputs (k := "artifacts")
          (by simp [ComponentEntry.inputFields, artifactTypes])
          (by simp [ComponentEntry.inputFields, parameterTypes, artifactTypes])
      have hkeys := (keys_perm_of_alike hartifacts).mem_iff (a := name)
      rwa [keys_artifacts, keys_artifacts] at hkeys
  | conversion executor' =>
    exact (not_alike_without_artifacts halike.symm artifacts
      (by simp [ComponentEntry.inputFields])
      (by simp [ComponentEntry.inputFields, parameterTypes])).elim

/-! ### Conversions -/

/-- A source that is a text or an input of the pipeline. -/
def ParameterSource.IsText : ParameterSource → Prop
  | .constant (.string _) | .pipelineInput _ => True
  | _ => False

/-- Such a source is determined by its document. -/
theorem source_eq_of_alike {x y : ParameterSource} (hy : y.IsText)
    (h : Alike x.toValue y.toValue) : x = y := by
  -- Documents of different sources differ in their first key, and texts differ from numbers.
  cases y with
  | taskOutput task output => exact hy.elim
  | pipelineInput name =>
    cases x with
    | pipelineInput name' =>
      have hname : Alike (.str name') (.str name) :=
        alike_field h (k := "componentInputParameter") (by simp) (by simp)
      rw [alike_str hname]
    | constant value =>
      obtain ⟨w, hw, -⟩ := alike_ofFields h (k := "runtimeValue") List.mem_cons_self
      simp at hw
    | taskOutput task output =>
      obtain ⟨w, hw, -⟩ := alike_ofFields h (k := "taskOutputParameter") List.mem_cons_self
      simp at hw
  | constant value =>
    cases value with
    | int i => exact hy.elim
    | double f => exact hy.elim
    | string text =>
      cases x with
      | pipelineInput name' =>
        obtain ⟨w, hw, -⟩ :=
          alike_ofFields h (k := "componentInputParameter") List.mem_cons_self
        simp at hw
      | taskOutput task output =>
        obtain ⟨w, hw, -⟩ := alike_ofFields h (k := "taskOutputParameter") List.mem_cons_self
        simp at hw
      | constant value' =>
        have hruntime : Alike (.ofFields [("constantValue", value'.toValue)])
            (.ofFields [("constantValue", (Constant.string text).toValue)]) :=
          alike_field h (k := "runtimeValue") (by simp) (by simp)
        have hvalue : Alike value'.toValue (Constant.string text).toValue :=
          alike_field hruntime (k := "constantValue") (by simp) (by simp)
        cases value' with
        | string text' =>
          have htext : Alike (.str text') (.str text) :=
            alike_field hvalue (k := "stringValue") (by simp) (by simp)
          rw [alike_str htext]
        | int i =>
          obtain ⟨w, hw, -⟩ := alike_ofFields hvalue (k := "intValue") List.mem_cons_self
          simp at hw
        | double f =>
          obtain ⟨w, hw, -⟩ := alike_ofFields hvalue (k := "doubleValue") List.mem_cons_self
          simp at hw

/-- The document of the inputs of a task. -/
def JobTask.inputFields : JobTask → Keyed Value
  | .step _ _ parameters artifacts _ => [parameterSources parameters, artifactSources artifacts]
  | .conversion _ source _ => [parameterSources [(conversionInput, source)]]

/-- The name with which a task is shown. -/
def JobTask.title : JobTask → String
  | .step id _ _ _ _ => id
  | .conversion _ _ _ => conversionName

/-- Whether results of earlier runs of a task may be used. -/
def JobTask.caching : JobTask → Bool
  | .step _ _ _ _ caching | .conversion _ _ caching => caching

/-- The field with the dependencies of a task, which a conversion does not have. -/
def JobTask.dependencyFields : JobTask → Keyed Value
  | .step id component parameters artifacts caching =>
    let task := JobTask.step id component parameters artifacts caching
    if task.dependencies.isEmpty then []
    else [("dependentTasks", Value.ofTexts task.dependencies)]
  | .conversion _ _ _ => []

/-- The fields of the document of a task. -/
def JobTask.fields (task : JobTask) : Keyed Value :=
  taskHead task.title task.component task.inputFields ++ task.dependencyFields
    ++ [cachingField task.caching]

/-- The document of a task has these fields. -/
theorem toValue_task (task : JobTask) : task.toValue = .ofFields task.fields := by
  cases task with
  | step | conversion => rfl

/-- A field of a task is the title, the component, the inputs, the dependencies or the caching. -/
theorem mem_taskFields {task : JobTask} {field : String × Value} (h : field ∈ task.fields) :
    field = ("taskInfo", .ofFields [("name", .str task.title)]) ∨
      field = ("componentRef", .ofFields [("name", .str task.component)]) ∨
      field = ("inputs", .ofFields task.inputFields) ∨
      (field = ("dependentTasks", .ofTexts task.dependencies) ∧ task.dependencies ≠ []) ∨
      field = cachingField task.caching := by
  -- Only steps have dependencies to write, and only if there are some.
  have hdependencies : field ∈ task.dependencyFields →
      field = ("dependentTasks", .ofTexts task.dependencies) ∧ task.dependencies ≠ [] := by
    intro hfield
    cases task with
    | conversion => cases hfield
    | step id component parameters artifacts caching =>
      unfold JobTask.dependencyFields at hfield
      dsimp only at hfield
      split at hfield
      next => cases hfield
      next hne => exact ⟨List.mem_singleton.mp hfield, fun he => hne (by rw [he]; rfl)⟩
  simp only [JobTask.fields, taskHead, List.mem_append, List.mem_cons, List.not_mem_nil,
    or_false] at h
  rcases h with ((h | h | h) | h) | h
  · exact .inl h
  · exact .inr (.inl h)
  · exact .inr (.inr (.inl h))
  · exact .inr (.inr (.inr (.inl (hdependencies h))))
  · exact .inr (.inr (.inr (.inr h)))

/-- No field of a task holds a name. -/
theorem taskFields_unnamed (task : JobTask) : ∀ field ∈ task.fields, field.1 ≠ "name" := by
  intro field hfield
  rcases mem_taskFields hfield with rfl | rfl | rfl | ⟨rfl, -⟩ | rfl
  · simp
  · simp
  · simp
  · simp
  · simp [cachingField]

/-- **A task that converts a text or an input of the pipeline is shared for what it converts.** -/
theorem task_of_sameRecord {task : JobTask} {component : String} {source : ParameterSource}
    {caching : Bool} (hsource : source.IsText)
    (h : SameRecord JobTask.toValue task (.conversion component source caching)) :
    ∃ caching', task = .conversion component source caching' := by
  obtain ⟨text, ht, hu⟩ := h
  rw [toValue_task] at ht hu
  have halike := alike_of_structuralText (taskFields_unnamed _) (taskFields_unnamed _) ht hu
  have hcomponent : Alike (.ofFields [("name", .str task.component)])
      (.ofFields [("name", .str component)]) :=
    alike_field halike (k := "componentRef") (by simp [JobTask.fields, taskHead])
      (by simp [JobTask.fields, taskHead, JobTask.dependencyFields, cachingField,
        JobTask.component])
  have hname : Alike (.str task.component) (.str component) :=
    alike_field hcomponent (k := "name") (by simp) (by simp)
  have hinputs : Alike (.ofFields task.inputFields)
      (.ofFields [parameterSources [(conversionInput, source)]]) :=
    alike_field halike (k := "inputs") (by simp [JobTask.fields, taskHead])
      (by simp [JobTask.fields, taskHead, JobTask.dependencyFields, cachingField,
        JobTask.inputFields])
  cases task with
  | step id component' parameters artifacts caching' =>
    -- a task of the pipeline has a list of artifacts, even when it is empty
    obtain ⟨w, hw, -⟩ := alike_ofFields hinputs (k := "artifacts")
      (v := .ofFields (Keyed.mapValues ArtifactSource.toValue artifacts))
      (by simp [JobTask.inputFields, artifactSources])
    simp [parameterSources] at hw
  | conversion component' source' caching' =>
    have hparameters : Alike
        (.ofFields (Keyed.mapValues ParameterSource.toValue [(conversionInput, source')]))
        (.ofFields (Keyed.mapValues ParameterSource.toValue [(conversionInput, source)])) :=
      alike_field hinputs (k := "parameters") (by simp [JobTask.inputFields, parameterSources])
        (by simp [parameterSources])
    have hvalue : Alike source'.toValue source.toValue :=
      alike_field hparameters (k := conversionInput) (by simp [Keyed.mapValues])
        (by simp [Keyed.mapValues])
    obtain rfl := source_eq_of_alike hsource hvalue
    obtain rfl : component' = component := alike_str hname
    exact ⟨caching', rfl⟩

end PipelineCompiler.Vertex
