import PipelineCompiler.Argo.Compile
import PipelineCompiler.Proofs.Argo.Reference
import PipelineCompiler.Proofs.Launch

namespace PipelineCompiler.Argo

/-!
# Templates of plain data

Where texts are whole, the records of templates and tasks are plain, so that they can be found.

* `Complete` — the settings that workflows are made with;
* `Reference.IsWhole`, `DagTask.IsWhole` — references and tasks whose texts are whole;
* `container_plain`, `conversion_plain`, `dag_plain`, `step_plain` — their records.
-/

open Text

variable {s : Settings}

/-! ### Settings -/

/-- The settings that workflows are made with are there. -/
structure Complete (s : Settings) : Prop where
  length : ∃ limit, s.nameLength = .ok (some limit)
  inputs : ∃ directory, s.text "container_inputs_dir" = .ok directory ∧ Whole directory
  outputs : ∃ directory, s.text "container_outputs_dir" = .ok directory ∧ Whole directory
  file : ∃ file, s.text "io_file_name" = .ok file ∧ Whole file
  image : ∃ image, s.value "converter_image" = .ok image ∧ image.Plain
  runs : ∃ limit, s.length "max_generate_name_length" = .ok limit
  annotations : ∃ stated entries, s.value "workflow_annotations" = .ok stated ∧
    stated.mappingOf = .ok entries

/-- Files whose name and path are whole. -/
def ArtifactFile.IsWhole (f : ArtifactFile) : Prop := Whole f.name ∧ Whole f.path

/-- There is a file below a directory. -/
theorem exists_fileOf {directory : String}
    (hfile : ∃ file, s.text "io_file_name" = .ok file ∧ Whole file)
    (hroot : ∃ root, s.text directory = .ok root ∧ Whole root) (name : String) :
    ∃ found, fileOf s directory name = .ok found ∧ found.IsWhole := by
  obtain ⟨file, hfile, hwhole⟩ := hfile
  obtain ⟨root, hroot, hwhole'⟩ := hroot
  refine ⟨_, by rw [fileOf, hroot, hfile]; rfl, whole_sanitizeIoName name, ?_⟩
  refine whole_intercalate (whole_of_ascii (by decide)) fun t ht => ?_
  simp only [List.mem_cons, List.not_mem_nil, or_false] at ht
  rcases ht with rfl | rfl | rfl
  · exact hwhole'
  · exact whole_sanitizeIoName name
  · exact hwhole

/-- There are files for several names. -/
theorem exists_files {file : String → Except Failure ArtifactFile}
    (h : ∀ name, ∃ found, file name = .ok found ∧ found.IsWhole) (names : List String) :
    ∃ files, names.mapM file = .ok files ∧ ∀ found ∈ files, found.IsWhole := by
  induction names with
  | nil => exact ⟨[], rfl, fun _ hfound => nomatch hfound⟩
  | cons name rest ih =>
    obtain ⟨found, hfound, hwhole⟩ := h name
    obtain ⟨files, hfiles, hall⟩ := ih
    refine ⟨found :: files, by rw [List.mapM_cons, hfound, hfiles]; rfl, fun other hother => ?_⟩
    rcases List.mem_cons.mp hother with rfl | hother
    · exact hwhole
    · exact hall other hother

/-! ### References -/

/-- A text between braces. -/
theorem whole_braced {t : String} (h : Whole t) : Whole (braced t) :=
  whole_append.mpr ⟨whole_append.mpr ⟨whole_of_ascii (by decide), h⟩,
    whole_of_ascii (by decide)⟩

/-- A reference whose parts, or whose text, are whole. -/
def Reference.IsWhole : Reference → Prop
  | .constant text => Whole text
  | .parameter name | .artifact name => Whole name
  | .taskParameter task name | .taskArtifact task name => Whole task ∧ Whole name

/-- The text of such a reference. -/
theorem Reference.IsWhole.text {r : Reference} (h : r.IsWhole) : Whole r.text := by
  have hword : ∀ word ∈ [".", "inputs", "outputs", "tasks", "parameters", "artifacts"],
      Whole word := by
    decide
  -- All references but constants are words between dots, and braces around them.
  have hparts : (∀ part ∈ r.parts, Whole part) → r.parts ≠ [] → Whole r.text := by
    intro hparts hne
    rw [text_eq_braced hne]
    exact whole_braced (whole_intercalate (hword _ (by simp)) hparts)
  cases r with
  | constant text => exact h
  | parameter name | artifact name =>
    refine hparts (fun part hpart => ?_) (List.cons_ne_nil _ _)
    simp only [Reference.parts, List.mem_cons, List.not_mem_nil, or_false] at hpart
    rcases hpart with rfl | rfl | rfl
    · exact hword _ (by simp)
    · exact hword _ (by simp)
    · exact h
  | taskParameter task name | taskArtifact task name =>
    refine hparts (fun part hpart => ?_) (List.cons_ne_nil _ _)
    simp only [Reference.parts, List.mem_cons, List.not_mem_nil, or_false] at hpart
    rcases hpart with rfl | rfl | rfl | rfl | rfl
    · exact hword _ (by simp)
    · exact h.1
    · exact hword _ (by simp)
    · exact hword _ (by simp)
    · exact h.2

/-- References to whole names are whole. -/
theorem accessors_keepWhole : accessors.KeepWhole := by
  have hname : ∀ {before : String} (name : String), Whole before →
      Whole (before ++ sanitizeIoName name) := fun name hbefore =>
    whole_append.mpr ⟨hbefore, whole_sanitizeIoName name⟩
  have hpath : ∀ {before : String} (name : String), Whole before →
      Whole (before ++ sanitizeIoName name ++ ".path") := fun name hbefore =>
    whole_append.mpr ⟨hname name hbefore, whole_of_ascii (by decide)⟩
  exact {
    parameterValue := fun name _ => whole_braced (hname name (whole_of_ascii (by decide)))
    artifactPath := fun name _ => whole_braced (hpath name (whole_of_ascii (by decide)))
    outputPath := fun name _ => whole_braced (hpath name (whole_of_ascii (by decide)))
    artifactValue := fun _ haccess => nomatch haccess }

/-! ### Records -/

/-- Something that has only a name. -/
theorem plain_named {name : String} (h : Whole name) : (named name).Plain :=
  PlainFields.plain (.cons (whole_of_ascii (by decide)) (.str h) .nil)

/-- A file. -/
theorem plain_file {f : ArtifactFile} (h : f.IsWhole) : f.toValue.Plain :=
  PlainFields.plain (.cons (whole_of_ascii (by decide)) (.str h.1)
    (.cons (whole_of_ascii (by decide)) (.str h.2) .nil))

/-- A binding. -/
theorem plain_boundTo {field : String} (hfield : Whole field) {binding : String × Reference}
    (h : Whole binding.1 ∧ binding.2.IsWhole) : (boundTo field binding).Plain :=
  PlainFields.plain (.cons (whole_of_ascii (by decide)) (.str h.1)
    (.cons hfield (.str h.2.text) .nil))

/-- A list of plain things under a name. -/
theorem plain_listing {α : Type} {name : String} (hname : Whole name)
    {f : α → Value} {xs : List α}
    (h : ∀ x ∈ xs, (f x).Plain) {rest : List (String × Value)} (hrest : PlainFields rest) :
    PlainFields (listing name (xs.map f) :: rest) := by
  refine .cons hname (.list fun v hv => ?_) hrest
  obtain ⟨x, hx, rfl⟩ := List.mem_map.mp hv
  exact h x hx

/-- A task whose texts are whole. -/
structure DagTask.IsWhole (task : DagTask) : Prop where
  template : Whole task.template
  parameters : ∀ binding ∈ task.parameters, Whole binding.1 ∧ binding.2.IsWhole
  artifacts : ∀ binding ∈ task.artifacts, Whole binding.1 ∧ binding.2.IsWhole

/-- **The fields of a task.** -/
theorem DagTask.IsWhole.fields {task : DagTask} (h : task.IsWhole) : PlainFields task.fields := by
  have hkeys : ∀ key ∈ ["template", "arguments", "dependencies", "parameters",
    "artifacts", "value", "from"], Whole key := by
    decide
  have hartifacts : PlainFields [listing "artifacts" (task.artifacts.map (boundTo "from"))] :=
    plain_listing (hkeys _ (by simp))
      (fun b hb => plain_boundTo (hkeys _ (by simp)) (h.artifacts b hb)) .nil
  have harguments : PlainFields task.arguments := by
    cases task with
    | step template parameters artifacts =>
      exact plain_listing (hkeys _ (by simp))
        (fun b hb => plain_boundTo (hkeys _ (by simp)) (h.parameters b hb)) hartifacts
    | conversion template source => exact hartifacts
  have htexts : ∀ t ∈ task.texts, Whole t := by
    intro t ht
    obtain ⟨binding, hbinding, rfl⟩ := List.mem_map.mp ht
    rcases List.mem_append.mp hbinding with hbinding | hbinding
    · exact (h.parameters binding hbinding).2.text
    · exact (h.artifacts binding hbinding).2.text
  -- Dependencies are scanned from the texts of the bindings, so they are whole if these are.
  unfold DagTask.fields
  refine plainFields_append.mpr ⟨.cons (hkeys _ (by simp)) (.str h.template)
    (.cons (hkeys _ (by simp)) harguments.plain .nil), ?_⟩
  split
  · exact .nil
  · exact .cons (hkeys _ (by simp)) (plain_ofTexts (whole_referencedTasks htexts)) .nil

/-- A template with plain inputs and outputs and a plain body. -/
theorem plain_template {t : Template} (hinputs : PlainFields t.inputs)
    (houtputs : PlainFields t.outputs) (hbody : Whole t.body.1 ∧ t.body.2.Plain) :
    PlainFields t.fields :=
  .cons (whole_of_ascii (by decide)) hinputs.plain
    (.cons (whole_of_ascii (by decide)) houtputs.plain (.cons hbody.1 hbody.2 .nil))

/-- The container of a template. -/
theorem plain_container {launch : Launch} (h : launch.Plain) : (containerDocument launch).Plain :=
  PlainFields.plain (.cons (whole_of_ascii (by decide))
    (.str (whole_of_ascii (by decide))) h.fields)

/-- **The template of a container.** -/
theorem container_plain {names : List String} {artifacts outputs : List ArtifactFile}
    {launch : Launch} (hartifacts : ∀ f ∈ artifacts, f.IsWhole)
    (houtputs : ∀ f ∈ outputs, f.IsWhole) (hlaunch : launch.Plain) : PlainFields
      (Template.container (names.map sanitizeIoName) artifacts outputs launch).fields := by
  have hkeys : ∀ key ∈ ["parameters", "artifacts", "container"], Whole key := by
    decide
  refine plain_template ?_ ?_ ⟨hkeys _ (by simp [Template.body]), plain_container hlaunch⟩
  · refine plain_listing (hkeys _ (by simp)) (fun name hname => ?_)
      (plain_listing (hkeys _ (by simp)) (fun f hf => plain_file (hartifacts f hf)) .nil)
    obtain ⟨input, -, rfl⟩ := List.mem_map.mp hname
    exact plain_named (whole_sanitizeIoName input)
  · exact plain_listing (hkeys _ (by simp)) (fun f hf => plain_file (houtputs f hf)) .nil

/-- **The template that converts artifacts** is there, and plain. -/
theorem exists_conversionTemplate (h : Complete s) :
    ∃ t, conversionTemplate s = .ok t ∧ PlainFields t.fields := by
  obtain ⟨input, hinput, hinputWhole⟩ := exists_fileOf h.file h.inputs conversionInput
  obtain ⟨output, houtput, houtputWhole⟩ := exists_fileOf h.file h.outputs conversionOutput
  obtain ⟨image, himage, hplain⟩ := h.image
  -- All keys of this template are spelled with letters, so they are plain at once.
  have hkeys : ∀ key ∈ ["parameters", "artifacts", "container", "name", "valueFrom", "path"],
      Whole key := by
    decide
  refine ⟨_, by
    rw [conversionTemplate, inputFile, hinput, outputFile, houtput, himage]; rfl, ?_⟩
  refine plain_template ?_ ?_ ⟨hkeys _ (by simp [Template.body]), plain_container ?_⟩
  · exact .cons (hkeys _ (by simp))
      (.list (List.forall_mem_singleton.mpr (plain_file hinputWhole))) .nil
  · have hpath : PlainFields [("path", .str output.path)] :=
      .cons (hkeys _ (by simp)) (.str houtputWhole.2) .nil
    have hparameter : output.toParameter.Plain :=
      PlainFields.plain (.cons (hkeys _ (by simp)) (.str houtputWhole.1)
        (.cons (hkeys _ (by simp)) hpath.plain .nil))
    exact .cons (hkeys _ (by simp)) (.list (List.forall_mem_singleton.mpr hparameter)) .nil
  · refine ⟨hplain, fun tokens htokens => ?_, (fun _ h => nomatch h), fun _ h => nomatch h⟩
    obtain rfl := Option.some.inj htokens
    exact fun t ht => by revert t; decide

/-- **The template of a graph.** -/
theorem dag_plain {parameters artifacts : List String} {outputs : List (String × Reference)}
    {tasks : Keyed DagTask} (houtputs : ∀ output ∈ outputs, Whole output.1 ∧ output.2.IsWhole)
    (htasks : ∀ entry ∈ tasks, Whole entry.1 ∧ entry.2.IsWhole) :
    PlainFields (Template.dag (parameters.map sanitizeIoName) (artifacts.map sanitizeIoName)
      outputs tasks).fields := by
  have hkeys : ∀ key ∈ ["parameters", "artifacts", "dag", "name", "from", "tasks"],
    Whole key := by
    decide
  have hnames : ∀ names : List String, ∀ name ∈ names.map sanitizeIoName,
    (named name).Plain := by
    intro names name hname
    obtain ⟨input, -, rfl⟩ := List.mem_map.mp hname
    exact plain_named (whole_sanitizeIoName input)
  refine plain_template ?_ ?_ ⟨hkeys _ (by simp [Template.body]), PlainFields.plain ?_⟩
  · exact plain_listing (hkeys _ (by simp)) (hnames parameters)
      (plain_listing (hkeys _ (by simp)) (hnames artifacts) .nil)
  · exact plain_listing (hkeys _ (by simp))
      (fun output houtput => plain_boundTo (hkeys _ (by simp)) (houtputs output houtput))
      .nil
  · refine plain_listing (hkeys _ (by simp)) (fun entry hentry => ?_) .nil
    obtain ⟨hname, hwhole⟩ := htasks entry hentry
    exact PlainFields.plain (.cons (hkeys _ (by simp)) (.str hname) hwhole.fields)

end PipelineCompiler.Argo
