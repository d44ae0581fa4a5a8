import PipelineCompiler.Argo.Workflow
import PipelineCompiler.Proofs.Naming.Registry

namespace PipelineCompiler.Argo

/-!
# Outlines of templates

The outline of a template is the part of its document that data flow depends on: the names of its
inputs, and what the inputs of its tasks are bound to, as the texts that are written.  Templates
are shared when their records have one text, and then they have one outline.

* `TaskOutline`, `Outline` — what a document says about a task and about a template;
* `outline_of_sameRecord` — templates whose records have one text have one outline;
* `taskOutline_of_sameRecord` — the same for tasks;
* `outlines`, `find?_of_outlines` — tasks with the same outlines are found under the same names;
* `outputArtifacts_of_sameRecord`, `isConversion_of_sameRecord` — what is not in the outline, but
  in the record.
-/

/-! ### Outlines -/

/-- What the inputs of a task are bound to, as texts. -/
def bindingTexts (bindings : List (String × Reference)) : Keyed String :=
  bindings.map fun binding => (binding.1, binding.2.text)

/-- What a document says about a task. -/
structure TaskOutline where
  template : String
  parameters : Keyed String
  artifacts : Keyed String
deriving Repr, DecidableEq

/-- The outline of a task. -/
def DagTask.outline (task : DagTask) : TaskOutline :=
  { template := task.template
    parameters := bindingTexts task.parameters
    artifacts := bindingTexts task.artifacts }

/-- What a document says about a template. -/
inductive Outline where
  | container (parameters artifacts : List String)
  | dag (parameters artifacts : List String) (tasks : Keyed TaskOutline)
  | conversion (input output : String)
deriving Repr, DecidableEq

namespace Outline

/-- The names of the input parameters. -/
def parameters : Outline → List String
  | .container parameters _ | .dag parameters _ _ => parameters
  | .conversion _ _ => []

/-- The names of the input artifacts. -/
def artifacts : Outline → List String
  | .container _ artifacts | .dag _ artifacts _ => artifacts
  | .conversion input _ => [input]

/-- The tasks. -/
def tasks : Outline → Keyed TaskOutline
  | .dag _ _ tasks => tasks
  | _ => []

end Outline

namespace Template

/-- The outline of a template. -/
def outline : Template → Outline
  | .container parameters artifacts _ _ => .container parameters (artifacts.map ArtifactFile.name)
  | .dag parameters artifacts _ tasks =>
    .dag parameters artifacts (tasks.map fun entry => (entry.1, entry.2.outline))
  | .conversion input output _ => .conversion input.name output.name

/-- The outline has the input parameters of the template. -/
theorem outline_parameters (t : Template) : t.outline.parameters = t.inputParameters := by
  cases t with
  | container | dag | conversion => rfl

/-- The outline has the input artifacts of the template. -/
theorem outline_artifacts (t : Template) : t.outline.artifacts = t.inputArtifacts := by
  cases t with
  | container | dag | conversion => rfl

end Template

/-! ### What alike documents have in common -/

/-- Documents that hold a name only. -/
theorem eq_of_alike_named {a b : String} (h : Alike (named a) (named b)) : a = b :=
  alike_str (alike_field h (k := "name") (by simp) (by simp))

/-- Artifacts with their files. -/
theorem name_eq_of_alike_file {a b : ArtifactFile} (h : Alike a.toValue b.toValue) :
    a.name = b.name := alike_str (alike_field h (k := "name") (by simp) (by simp))

/-- Lists of names under one field. -/
theorem names_eq_of_alike (field : String) {fs gs : Keyed Value}
    (h : Alike (.ofFields fs) (.ofFields gs)) {xs ys : List String}
    (hxs : listing field (xs.map named) ∈ fs)
    (hys : ∀ w, (field, w) ∈ gs → w = .list (ys.map named)) : xs = ys := by
  have heq := map_eq_of_alike (g := id) (fun _ _ => eq_of_alike_named) (alike_field h hxs hys)
  rwa [List.map_id, List.map_id] at heq

/-- Lists of artifacts with their files under one field. -/
theorem files_eq_of_alike (field : String) {fs gs : Keyed Value}
    (h : Alike (.ofFields fs) (.ofFields gs)) {xs ys : List ArtifactFile}
    (hxs : listing field (xs.map ArtifactFile.toValue) ∈ fs)
    (hys : ∀ w, (field, w) ∈ gs → w = .list (ys.map ArtifactFile.toValue)) :
    xs.map ArtifactFile.name = ys.map ArtifactFile.name :=
  map_eq_of_alike (fun _ _ => name_eq_of_alike_file) (alike_field h hxs hys)

/-- Output parameters with their files. -/
theorem name_eq_of_alike_parameter {a b : ArtifactFile} (h : Alike a.toParameter b.toParameter) :
    a.name = b.name := alike_str (alike_field h (k := "name") (by simp) (by simp))

/-- Bindings with one text. -/
theorem binding_eq_of_alike {field : String} (hfield : field ≠ "name")
    {a b : String × Reference} (h : Alike (boundTo field a) (boundTo field b)) :
    (a.1, a.2.text) = (b.1, b.2.text) := by
  have hname : Alike (.str a.1) (.str b.1) :=
    alike_field h (k := "name") (by simp) (by simp [Ne.symm hfield])
  have htext : Alike (.str a.2.text) (.str b.2.text) :=
    alike_field h (k := field) (by simp) (by simp [hfield])
  rw [alike_str hname, alike_str htext]

/-- Bindings of one kind. -/
theorem bindingTexts_eq_of_alike {field : String} (hfield : field ≠ "name")
    {ps qs : List (String × Reference)}
    (h : Alike (.list (ps.map (boundTo field))) (.list (qs.map (boundTo field)))) :
    bindingTexts ps = bindingTexts qs :=
  map_eq_of_alike (fun _ _ => binding_eq_of_alike hfield) h

/-- The arguments of tasks: only the conversion of an artifact has no list of parameters. -/
theorem arguments_eq_of_alike {t u : DagTask}
    (h : Alike (.ofFields t.arguments) (.ofFields u.arguments)) :
    bindingTexts t.parameters = bindingTexts u.parameters ∧
      bindingTexts t.artifacts = bindingTexts u.artifacts := by
  have hartifacts : Alike (.list (t.artifacts.map (boundTo "from")))
      (.list (u.artifacts.map (boundTo "from"))) := by
    refine alike_field h (k := "artifacts") ?_ ?_
    · cases t with
      | step | conversion => simp [DagTask.arguments, DagTask.artifacts, listing]
    · cases u with
      | step | conversion => simp [DagTask.arguments, DagTask.artifacts, listing]
  refine ⟨?_, bindingTexts_eq_of_alike (by decide) hartifacts⟩
  cases t with
  | step template parameters artifacts =>
    obtain ⟨w, hw, halike⟩ := alike_ofFields h (k := "parameters")
      (v := .list (parameters.map (boundTo "value"))) (by simp [DagTask.arguments, listing])
    cases u with
    | step template' parameters' artifacts' =>
      simp only [DagTask.arguments, listing, List.mem_cons, Prod.mk.injEq, List.not_mem_nil,
        or_false, true_and] at hw
      rcases hw with rfl | ⟨hne, -⟩
      · exact bindingTexts_eq_of_alike (by decide) halike
      -- the list of artifacts has another name
      · exact absurd hne (by decide)
    | conversion template' source => simp [DagTask.arguments, listing] at hw
  | conversion template source =>
    cases u with
    | step template' parameters' artifacts' =>
      obtain ⟨w, hw, -⟩ := alike_ofFields h.symm (k := "parameters")
        (v := .list (parameters'.map (boundTo "value"))) (by simp [DagTask.arguments, listing])
      simp [DagTask.arguments, listing] at hw
    | conversion template' source' => rfl

/-- The fields of a task that name its template and its arguments. -/
theorem mem_taskFields {t : DagTask} {k : String} {v : Value} (h : (k, v) ∈ t.fields) :
    k = "template" ∧ v = .str t.template ∨ k = "arguments" ∧ v = .ofFields t.arguments ∨
      k = "dependencies" := by
  unfold DagTask.fields at h
  split at h
  · simp only [List.append_nil, List.mem_cons, Prod.mk.injEq, List.not_mem_nil, or_false] at h
    rcases h with h | h
    · exact .inl h
    · exact .inr (.inl h)
  · simp only [List.cons_append, List.nil_append, List.mem_cons, Prod.mk.injEq,
      List.not_mem_nil, or_false] at h
    rcases h with h | h | h
    · exact .inl h
    · exact .inr (.inl h)
    · exact .inr (.inr h.1)

/-- The arguments of tasks with alike fields are alike, whatever other fields there are. -/
theorem arguments_alike {t u : DagTask} {fs gs : Keyed Value}
    (h : Alike (.ofFields fs) (.ofFields gs)) (hfs : ∀ field ∈ t.fields, field ∈ fs)
    (hgs : ∀ k v, k ≠ "name" → (k, v) ∈ gs → (k, v) ∈ u.fields) :
    Alike (.ofFields t.arguments) (.ofFields u.arguments) := by
  refine alike_field h (k := "arguments") (hfs _ (by simp [DagTask.fields])) fun w hw => ?_
  rcases mem_taskFields (hgs _ _ (by decide) hw) with ⟨hk, -⟩ | ⟨-, rfl⟩ | hk
  · exact absurd hk (by decide)
  · rfl
  · exact absurd hk (by decide)

/-- **Tasks with alike fields have one outline**, whatever other fields there are. -/
theorem taskOutline_of_alike {t u : DagTask} {fs gs : Keyed Value}
    (h : Alike (.ofFields fs) (.ofFields gs)) (hfs : ∀ field ∈ t.fields, field ∈ fs)
    (hgs : ∀ k v, k ≠ "name" → (k, v) ∈ gs → (k, v) ∈ u.fields) :
    t.outline = u.outline := by
  have htemplate : Alike (.str t.template) (.str u.template) := by
    refine alike_field h (k := "template") (hfs _ (by simp [DagTask.fields])) fun w hw => ?_
    rcases mem_taskFields (hgs _ _ (by decide) hw) with ⟨-, rfl⟩ | ⟨hk, -⟩ | hk
    · rfl
    · exact absurd hk (by decide)
    · exact absurd hk (by decide)
  obtain ⟨hparameters, hartifacts⟩ := arguments_eq_of_alike (arguments_alike h hfs hgs)
  unfold DagTask.outline
  rw [alike_str htemplate, hparameters, hartifacts]

/-- Tasks of a template, with their names. -/
theorem namedOutline_of_alike {a b : String × DagTask}
    (h : Alike (DagTask.toValue a) (DagTask.toValue b)) :
    (a.1, a.2.outline) = (b.1, b.2.outline) := by
  -- The field `name` occurs once: the others are called otherwise.
  have hname : Alike (.str a.1) (.str b.1) := by
    refine alike_field h (k := "name") List.mem_cons_self fun w hw => ?_
    rcases List.mem_cons.mp hw with hw | hw
    · exact (Prod.mk.inj hw).2
    · rcases mem_taskFields hw with ⟨hk, -⟩ | ⟨hk, -⟩ | hk
      · exact absurd hk (by decide)
      · exact absurd hk (by decide)
      · exact absurd hk (by decide)
  have houtline : a.2.outline = b.2.outline := by
    refine taskOutline_of_alike h (fun field hfield => List.mem_cons_of_mem _ hfield) ?_
    intro k v hk hv
    rcases List.mem_cons.mp hv with hv | hv
    · exact absurd (Prod.mk.inj hv).1 hk
    · exact hv
  rw [alike_str hname, houtline]

/-- The inputs of alike templates are alike. -/
theorem inputs_alike {t u : Template} (h : Alike t.record u.record) :
    Alike (.ofFields t.inputs) (.ofFields u.inputs) := by
  refine alike_field h (k := "inputs") (by simp [Template.fields]) ?_
  cases u with
  | container | dag | conversion => simp [Template.fields, Template.body]

/-- The outputs of alike templates are alike. -/
theorem outputs_alike {t u : Template} (h : Alike t.record u.record) :
    Alike (.ofFields t.outputs) (.ofFields u.outputs) := by
  refine alike_field h (k := "outputs") (by simp [Template.fields]) ?_
  cases u with
  | container | dag | conversion => simp [Template.fields, Template.body]

/-- Only the conversion of artifacts has no list of input parameters. -/
theorem not_alike_without_parameters {t u : Template} (h : Alike t.record u.record)
    (parameters : List String) (ht : listing "parameters" (parameters.map named) ∈ t.inputs)
    (hu : ∀ w, ("parameters", w) ∉ u.inputs) : False := by
  obtain ⟨w, hw, -⟩ := alike_ofFields (inputs_alike h) ht
  exact hu w hw

/-- A container is not alike to a graph. -/
theorem not_alike_body {t u : Template} (h : Alike t.record u.record)
    (hbody : t.body.1 ≠ u.body.1) (hinputs : t.body.1 ≠ "inputs")
    (houtputs : t.body.1 ≠ "outputs") : False := by
  obtain ⟨w, hw, -⟩ := alike_ofFields h (k := t.body.1) (v := t.body.2)
    (by simp [Template.fields])
  simp only [Template.fields, List.mem_cons, List.not_mem_nil, or_false] at hw
  rcases hw with hw | hw | hw
  · exact hinputs (Prod.mk.inj hw).1
  · exact houtputs (Prod.mk.inj hw).1
  · exact hbody (show (t.body.1, w).1 = u.body.1 by rw [hw])

/-- **Templates that are alike have one outline.** -/
theorem outline_of_alike {t u : Template} (h : Alike t.record u.record) :
    t.outline = u.outline := by
  have hinputs := inputs_alike h
  cases t with
  | container parameters artifacts outputs launch =>
    cases u with
    | container parameters' artifacts' outputs' launch' =>
      have hps : parameters = parameters' :=
        names_eq_of_alike "parameters" hinputs (by simp [Template.inputs])
          (by simp [Template.inputs, listing])
      have has : artifacts.map ArtifactFile.name = artifacts'.map ArtifactFile.name :=
        files_eq_of_alike "artifacts" hinputs (by simp [Template.inputs])
          (by simp [Template.inputs, listing])
      show Outline.container _ _ = Outline.container _ _
      rw [hps, has]
    -- templates of two kinds differ in their bodies, or in the list of input parameters
    | dag => exact (not_alike_body h (by simp [Template.body]) (by simp [Template.body])
        (by simp [Template.body])).elim
    | conversion => exact (not_alike_without_parameters h parameters
        (by simp [Template.inputs]) (by simp [Template.inputs, listing])).elim
  | dag parameters artifacts outputs tasks =>
    cases u with
    | dag parameters' artifacts' outputs' tasks' =>
      have hps : parameters = parameters' :=
        names_eq_of_alike "parameters" hinputs (by simp [Template.inputs])
          (by simp [Template.inputs, listing])
      have has : artifacts = artifacts' :=
        names_eq_of_alike "artifacts" hinputs (by simp [Template.inputs])
          (by simp [Template.inputs, listing])
      have hdag : Alike (.ofFields [listing "tasks" (tasks.map DagTask.toValue)])
          (.ofFields [listing "tasks" (tasks'.map DagTask.toValue)]) :=
        alike_field h (k := "dag") (by simp [Template.fields, Template.body])
          (by simp [Template.fields, Template.body])
      have hlists : Alike (.list (tasks.map DagTask.toValue))
          (.list (tasks'.map DagTask.toValue)) :=
        alike_field hdag (k := "tasks") (by simp [listing]) (by simp [listing])
      -- tasks are listed in their order, so that they are alike one by one
      have hts : (tasks.map fun entry => (entry.1, entry.2.outline))
          = tasks'.map fun entry => (entry.1, entry.2.outline) :=
        map_eq_of_alike (fun _ _ => namedOutline_of_alike) hlists
      show Outline.dag _ _ _ = Outline.dag _ _ _
      rw [hps, has, hts]
    | container | conversion => exact (not_alike_body h (by simp [Template.body])
        (by simp [Template.body]) (by simp [Template.body])).elim
  | conversion input output launch =>
    cases u with
    | container parameters' => exact (not_alike_without_parameters h.symm parameters'
        (by simp [Template.inputs]) (by simp [Template.inputs, listing])).elim
    | dag => exact (not_alike_body h (by simp [Template.body]) (by simp [Template.body])
        (by simp [Template.body])).elim
    | conversion input' output' launch' =>
      have hin : [input].map ArtifactFile.name = [input'].map ArtifactFile.name :=
        files_eq_of_alike "artifacts" hinputs (by simp [Template.inputs])
          (by simp [Template.inputs, listing])
      have hlists : Alike (.list ([output].map ArtifactFile.toParameter))
          (.list ([output'].map ArtifactFile.toParameter)) :=
        alike_field (outputs_alike h) (k := "parameters") (by simp [Template.outputs, listing])
          (by simp [Template.outputs, listing])
      have hout : [output].map ArtifactFile.name = [output'].map ArtifactFile.name :=
        map_eq_of_alike (fun _ _ => name_eq_of_alike_parameter) hlists
      show Outline.conversion _ _ = Outline.conversion _ _
      rw [(List.cons.inj hin).1, (List.cons.inj hout).1]

/-! ### Tasks with one outline -/

/-- The outlines of tasks under their names. -/
def outlines (tasks : Keyed DagTask) : Keyed TaskOutline :=
  tasks.map fun entry => (entry.1, entry.2.outline)

/-- The outlines of the tasks of a template are those in its outline. -/
theorem outlines_tasks (t : Template) : outlines t.tasks = t.outline.tasks := by
  cases t with
  | container | dag | conversion => rfl

/-- The dependencies of a task are read off its outline. -/
theorem dependencies_of_outline {t u : DagTask} (h : t.outline = u.outline) :
    t.dependencies = u.dependencies := by
  have htexts : ∀ task : DagTask, task.texts =
      (task.outline.parameters ++ task.outline.artifacts).map (·.2) := by
    intro task
    simp [DagTask.texts, DagTask.outline, bindingTexts, Function.comp_def]
  rw [DagTask.dependencies, DagTask.dependencies, htexts, htexts, h]

/-- Tasks with the same outlines are found alike. -/
theorem find?_of_outlines {tasks tasks' : Keyed DagTask} (h : outlines tasks = outlines tasks')
    {name : String} {task : DagTask}
    (hfind : Keyed.find? tasks name = some task) :
    ∃ task', Keyed.find? tasks' name = some task' ∧ task'.outline = task.outline := by
  have hmap : ∀ ts, Keyed.find? (outlines ts) name = (Keyed.find? ts name).map DagTask.outline :=
    fun ts => Keyed.find?_map (fun _ (task : DagTask) => task.outline) ts name
  have heq := hmap tasks'
  rw [← h, hmap, hfind] at heq
  exact Option.map_eq_some_iff.mp heq.symm

/-! ### Records of one text -/

/-- No field of the record of a template holds a name. -/
theorem templateFields_unnamed (t : Template) : ∀ field ∈ t.fields, field.1 ≠ "name" := by
  intro field hfield
  cases t with
  | container | dag | conversion =>
    simp only [Template.fields, Template.body, List.mem_cons, List.not_mem_nil, or_false] at hfield
    rcases hfield with rfl | rfl | rfl
    · simp
    · simp
    · simp

/-- **Shared templates have one outline.** -/
theorem outline_of_sameRecord {t u : Template} (h : SameRecord Template.record t u) :
    t.outline = u.outline := by
  obtain ⟨text, ht, hu⟩ := h
  exact outline_of_alike (alike_of_structuralText (templateFields_unnamed t)
    (templateFields_unnamed u) ht hu)

/-- The tasks of shared templates have the same outlines. -/
theorem outlines_of_sameRecord {t u : Template} (h : SameRecord Template.record t u) :
    outlines t.tasks = outlines u.tasks := by
  rw [outlines_tasks, outlines_tasks, outline_of_sameRecord h]

/-- No field of the record of a task holds a name. -/
theorem taskFields_unnamed (t : DagTask) : ∀ field ∈ t.fields, field.1 ≠ "name" := by
  rintro ⟨k, v⟩ hfield
  rcases mem_taskFields hfield with ⟨rfl, -⟩ | ⟨rfl, -⟩ | rfl
  · simp
  · simp
  · simp

/-- **Shared tasks have one outline.** -/
theorem taskOutline_of_sameRecord {t u : DagTask} (h : SameRecord DagTask.record t u) :
    t.outline = u.outline := by
  obtain ⟨text, ht, hu⟩ := h
  have halike := alike_of_structuralText (taskFields_unnamed t) (taskFields_unnamed u) ht hu
  exact taskOutline_of_alike halike (fun _ hfield => hfield) fun _ _ _ hv => hv

/-- **Shared templates have the same outputs.** -/
theorem outputArtifacts_of_sameRecord {t u : Template} (h : SameRecord Template.record t u) :
    t.outputArtifacts = u.outputArtifacts := by
  have houtline := outline_of_sameRecord h
  obtain ⟨text, ht, hu⟩ := h
  have houtputs := outputs_alike (alike_of_structuralText (templateFields_unnamed t)
    (templateFields_unnamed u) ht hu)
  -- Outlines agree, so both templates are of one sort, and their outputs have the same layout.
  cases t with
  | container _ _ outputs _ =>
    cases u with
    | container _ _ outputs' _ =>
      exact files_eq_of_alike "artifacts" houtputs (by simp [Template.outputs])
        (by simp [Template.outputs, listing])
    | dag | conversion => cases houtline
  | dag _ _ outputs _ =>
    cases u with
    | dag _ _ outputs' _ =>
      have hlists : Alike (.list (outputs.map (boundTo "from")))
          (.list (outputs'.map (boundTo "from"))) :=
        alike_field houtputs (k := "artifacts") (by simp [Template.outputs, listing])
          (by simp [Template.outputs, listing])
      have hbindings := bindingTexts_eq_of_alike (by decide) hlists
      simpa [bindingTexts, Template.outputArtifacts, Function.comp_def] using
        congrArg (List.map (·.1)) hbindings
    | container | conversion => cases houtline
  | conversion =>
    cases u with
    | conversion => rfl
    | container | dag => cases houtline

/-- Whether a task is the conversion of an artifact. -/
def DagTask.isConversion : DagTask → Bool
  | .step _ _ _ => false
  | .conversion _ _ => true

/-- **Nothing but a conversion is shared with a conversion.** -/
theorem isConversion_of_sameRecord {t : DagTask} {template : String} {source : Reference}
    (h : SameRecord DagTask.record t (.conversion template source)) : t.isConversion = true := by
  obtain ⟨text, ht, hu⟩ := h
  have halike := alike_of_structuralText (taskFields_unnamed t)
    (taskFields_unnamed (.conversion template source)) ht hu
  have harguments := arguments_alike halike (fun _ hfield => hfield) fun _ _ _ hv => hv
  cases t with
  | conversion => rfl
  | step template' parameters artifacts =>
    -- a conversion has no list of parameters
    obtain ⟨w, hw, -⟩ := alike_ofFields harguments (k := "parameters")
      (v := .list (parameters.map (boundTo "value"))) (by simp [DagTask.arguments, listing])
    simp [DagTask.arguments, listing] at hw

end PipelineCompiler.Argo
