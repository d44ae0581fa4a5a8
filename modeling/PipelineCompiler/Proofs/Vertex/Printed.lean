import PipelineCompiler.Export
import PipelineCompiler.Proofs.Component.Flat
import PipelineCompiler.Proofs.Context
import PipelineCompiler.Proofs.Json.Strict
import PipelineCompiler.Proofs.Verdict
import PipelineCompiler.Proofs.Vertex.Closure
import PipelineCompiler.Proofs.Vertex.Shared
import PipelineCompiler.Proofs.Vertex.Tidy

namespace PipelineCompiler.Vertex

/-!
# Jobs as JSON

* `Constant.doubles`, `Job.doubles` — the floats in a job;
* `Job.Tidy.shaped` — a tidy job is data that JSON has a form for;
* `floats_job` — the floats of its document are those of the job;
* `job_restored` — a job is written as JSON from which it can be read again, and this is strict if
  and only if all floats in the job are finite.

A float is in a job because some text stands for it, and there are texts for infinities and for what
is no number.
-/

open Json (Shaped floats floats_ofFields floats_list IsFinite)

/-! ### The floats in a job -/

/-- The floats in a constant. -/
def Constant.doubles : Constant → List Float
  | .double x => [x]
  | _ => []

/-- The floats in what a parameter is bound to. -/
def ParameterSource.doubles : ParameterSource → List Float
  | .constant c => c.doubles
  | _ => []

/-- The floats in a task. -/
def JobTask.doubles (task : JobTask) : List Float := task.parameters.flatMap (·.2.doubles)

/-- The floats in a job: constants of tasks, and values of inputs of the pipeline. -/
def Job.doubles (j : Job) : List Float :=
  j.root.tasks.flatMap (·.2.doubles) ++ j.parameters.flatMap (·.2.doubles)

/-- A float in a constant that is read is what a text stands for. -/
theorem Constant.IsRead.double {c : Constant} (h : c.IsRead) {x : Float} (hx : x ∈ c.doubles) :
    ∃ text : String, Number.decimal? text.toList = some x := by
  obtain ⟨type, text, hstands⟩ := h
  cases c with
  | string | int => cases hx
  | double y => exact ⟨text, List.mem_singleton.mp hx ▸ hstands.2⟩

/-- **A float in a tidy job is what a text stands for.** -/
theorem Job.Tidy.double {j : Job} (h : j.Tidy) {x : Float} (hx : x ∈ j.doubles) :
    ∃ text : String, Number.decimal? text.toList = some x := by
  rcases List.mem_append.mp hx with hx | hx
  · obtain ⟨entry, hentry, hx⟩ := List.mem_flatMap.mp hx
    obtain ⟨⟨name, source⟩, hsource, hx⟩ := List.mem_flatMap.mp hx
    have hread := (h.tasks.each entry hentry).parameters.each _ hsource
    cases source with
    | constant c => exact (hread c rfl).double hx
    | pipelineInput | taskOutput => cases hx
  · obtain ⟨entry, hentry, hx⟩ := List.mem_flatMap.mp hx
    exact (h.values.each entry hentry).double hx

/-! ### Documents of parts -/

/-- Documents under different keys. -/
theorem shaped_mapValues {α : Type} {depth : Nat} {document : α → Value} {entries : Keyed α}
    (hnodup : (Keyed.keys entries).Nodup)
    (h : ∀ entry ∈ entries, Shaped depth (document entry.2)) :
    Shaped (depth + 1) (.ofFields (Keyed.mapValues document entries)) := by
  refine .fields ?_ fun field hfield => ?_
  · rw [Keyed.keys, Keyed.mapValues, List.map_map]
    exact hnodup
  · obtain ⟨entry, hentry, rfl⟩ := List.mem_map.mp hfield
    exact h entry hentry

/-- The document of a constant that is read: its whole number has not too many digits. -/
theorem Constant.IsRead.shaped {c : Constant} (h : c.IsRead) : Shaped 1 c.toValue := by
  obtain ⟨type, text, hstands⟩ := h
  cases c with
  | string kept => exact (Shaped.str 0 kept).field _
  | int i => exact (Shaped.int 0 (Number.isTooLong_integer? hstands.2)).field _
  | double x => exact (Shaped.float 0 x).field _

/-- A mapping with some fields. -/
theorem shaped_fields {depth : Nat} {fields : List (String × Value)}
    (nodup : (Keyed.keys fields).Nodup) (each : fields.Forall fun field => Shaped depth field.2) :
    Shaped (depth + 1) (.ofFields fields) :=
  .fields nodup (List.forall_iff_forall_mem.mp each)

/-- The document of what a parameter is bound to. -/
theorem ParameterSource.IsRead.shaped {source : ParameterSource} (h : source.IsRead) :
    Shaped 3 source.toValue := by
  cases source with
  | constant c => exact ((h c rfl).shaped.field _).field _
  | pipelineInput name => exact (Shaped.str 2 name).field _
  | taskOutput task output =>
    have hfields : Shaped 2 (.ofFields [("producerTask", .str task),
        ("outputParameterKey", .str output)]) :=
      shaped_fields (by simp [Keyed.keys]) ⟨.str 1 task, .str 1 output⟩
    exact hfields.field _

/-- The document of what an artifact is bound to. -/
theorem ArtifactSource.shaped (source : ArtifactSource) : Shaped 3 source.toValue := by
  cases source with
  | pipelineInput name => exact (Shaped.str 2 name).field _
  | taskOutput task output =>
    have hfields : Shaped 2 (.ofFields [("producerTask", .str task),
        ("outputArtifactKey", .str output)]) :=
      shaped_fields (by simp [Keyed.keys]) ⟨.str 1 task, .str 1 output⟩
    exact hfields.field _

/-- The document of a task. -/
theorem JobTask.IsTidy.shaped {task : JobTask} (h : task.IsTidy) : Shaped 6 task.toValue := by
  have hname : ∀ name : String, Shaped 5 (.ofFields [("name", .str name)]) := fun name =>
    (Shaped.str 4 name).field _
  have hparameters : Shaped 4 (parameterSources task.parameters).2 :=
    shaped_mapValues h.parameters.nodup fun entry hentry => (h.parameters.each entry hentry).shaped
  have hartifacts : Shaped 4 (artifactSources task.artifacts).2 :=
    shaped_mapValues h.artifacts fun entry _ => entry.2.shaped
  have hinputs : Shaped 5 (.ofFields task.inputFields) := by
    cases task with
    | step id component parameters artifacts caching =>
      exact shaped_fields (by simp [Keyed.keys, JobTask.inputFields, parameterSources,
        artifactSources]) ⟨hparameters, hartifacts⟩
    | conversion => exact hparameters.field _
  have hcaching : Shaped 5 (cachingField task.caching).2 := (Shaped.bool 4 task.caching).field _
  -- The keys are those of the longest task, without some.
  have hkeys : (Keyed.keys task.fields).Sublist
      ["taskInfo", "componentRef", "inputs", "dependentTasks", "cachingOptions"] := by
    cases task with
    | conversion =>
      simp [JobTask.fields, taskHead, cachingField, JobTask.dependencyFields, Keyed.keys]
    | step =>
      simp only [JobTask.fields, JobTask.dependencyFields]
      split
      · simp [taskHead, cachingField, Keyed.keys]
      · simp [taskHead, cachingField, Keyed.keys]
  rw [toValue_task]
  refine .fields (hkeys.nodup (by decide)) fun field hfield => ?_
  rcases mem_taskFields hfield with rfl | rfl | rfl | ⟨rfl, -⟩ | rfl
  · exact hname _
  · exact hname _
  · exact hinputs
  · exact Json.shaped_ofTexts 4 _
  · exact hcaching

/-- The fields of a container. -/
theorem shaped_launchFields {launch : Launch} (h : launch.HasImage) :
    ∀ field ∈ launch.fields, Shaped 2 field.2 := by
  obtain ⟨image, himage⟩ := h
  have henv : Shaped 2 (.list (launch.env.map Launch.envEntry)) := by
    refine .list fun v hv => ?_
    obtain ⟨entry, -, rfl⟩ := List.mem_map.mp hv
    exact shaped_fields (by simp [Keyed.keys]) ⟨.str 0 entry.1, .str 0 entry.2⟩
  intro field hfield
  simp only [Launch.fields, List.mem_append, List.mem_singleton, List.mem_map,
    Option.mem_toList] at hfield
  -- Image, command, arguments and environment, of which the last two may be absent.
  rcases hfield with ((rfl | ⟨tokens, -, rfl⟩) | ⟨tokens, -, rfl⟩) | hfield
  · exact himage ▸ .str 2 image
  · exact Json.shaped_ofTexts 1 tokens
  · exact Json.shaped_ofTexts 1 tokens
  · split at hfield
    · cases hfield
    · obtain rfl := List.mem_singleton.mp hfield
      exact henv

/-- The document of an executor. -/
theorem shaped_executor {launch : Launch} (h : launch.HasImage) :
    Shaped 4 (executorDocument launch) :=
  Shaped.field (.fields (launch.keys_fields.nodup (by decide)) (shaped_launchFields h)) _

/-- The document of input or output parameters with different names. -/
theorem shaped_parameterTypes {types : Keyed PrimitiveType} (h : (Keyed.keys types).Nodup) :
    Shaped 3 (parameterTypes types).2 :=
  shaped_mapValues h fun entry _ => (Shaped.str 1 entry.2.name).field _

/-- The document of input or output artifacts with different names. -/
theorem shaped_artifactTypes {names : List String} (h : names.Nodup) :
    Shaped 3 (artifactTypes names).2 := by
  refine .fields (by rwa [Keyed.keys, List.map_map, show (_ ∘ _) = id from rfl, List.map_id])
    fun field hfield => ?_
  obtain ⟨name, -, rfl⟩ := List.mem_map.mp hfield
  exact ((Shaped.str 0 "system.Artifact").field _).field _

/-- The document of parameters and artifacts. -/
theorem shaped_definitions {types : Keyed PrimitiveType} (htypes : (Keyed.keys types).Nodup)
    {names : List String} (hnames : names.Nodup) :
    Shaped 4 (.ofFields [parameterTypes types, artifactTypes names]) :=
  shaped_fields (by simp [Keyed.keys, parameterTypes, artifactTypes])
    ⟨shaped_parameterTypes htypes, shaped_artifactTypes hnames⟩

/-- The document of a component. -/
theorem ComponentEntry.IsTidy.shaped {c : ComponentEntry} (h : c.IsTidy) : Shaped 5 c.toValue := by
  have hinputs : Shaped 4 (.ofFields c.inputFields) := by
    cases c with
    | step => exact shaped_definitions h.parameters h.artifacts
    | conversion => exact (shaped_parameterTypes h.parameters).field _
  rw [toValue_component]
  exact shaped_fields (by simp [Keyed.keys, ComponentEntry.fields])
    ⟨hinputs, (shaped_artifactTypes h.outputs).field _, .str 4 c.executor⟩

/-- The document of an output of the graph. -/
theorem shaped_output (source : String × String) : Shaped 3 (outputDocument source) := by
  have hselector : Shaped 1 (.ofFields [("producerSubtask", .str source.1),
      ("outputArtifactKey", .str source.2)]) :=
    shaped_fields (by simp [Keyed.keys]) ⟨.str 0 source.1, .str 0 source.2⟩
  exact (Shaped.list (List.forall_mem_singleton.mpr hselector)).field _

/-! ### The document of a job -/

/-- A job whose display name is data of some depth that JSON has a form for, and whose versions are
    texts. -/
structure Job.Titled (depth : Nat) (j : Job) : Prop where
  displayName : Shaped depth j.displayName
  sdkVersion : ∃ version, j.sdkVersion = .str version
  schemaVersion : ∃ version, j.schemaVersion = .str version

/-- **A tidy job is data that JSON has a form for.** -/
theorem Job.Tidy.shaped {j : Job} (h : j.Tidy) {depth : Nat} (htitled : j.Titled depth)
    (hdepth : 10 ≤ depth) : Shaped (depth + 1) j.toValue := by
  obtain ⟨⟨sdk, hsdk⟩, ⟨schema, hschema⟩⟩ :=
    And.intro htitled.sdkVersion htitled.schemaVersion
  -- From the inside out, one level of depth for each mapping around.
  have htasks : Shaped 7 (.ofFields (Keyed.mapValues JobTask.toValue j.root.tasks)) :=
    shaped_mapValues h.tasks.nodup fun entry hentry => (h.tasks.each entry hentry).shaped
  have houtputs : Shaped 4 (.ofFields (Keyed.mapValues outputDocument j.root.outputs)) :=
    shaped_mapValues h.outputs fun entry _ => shaped_output entry.2
  have hdag : Shaped 8 (.ofFields [
      ("tasks", .ofFields (Keyed.mapValues JobTask.toValue j.root.tasks)),
      ("outputs", .ofFields [
        ("artifacts", .ofFields (Keyed.mapValues outputDocument j.root.outputs))])]) :=
    shaped_fields (by simp [Keyed.keys]) ⟨htasks, (houtputs.field _).mono (by decide)⟩
  have hroot : Shaped 9 j.root.toValue :=
    shaped_fields (by simp [Keyed.keys])
      ⟨(shaped_definitions h.inputs h.artifacts).mono (by decide),
        ((shaped_artifactTypes h.outputs).field _).mono (by decide), hdag⟩
  have hexecutors : Shaped 5 (.ofFields (Keyed.mapValues executorDocument j.executors)) :=
    shaped_mapValues h.executors.nodup fun entry hentry =>
      shaped_executor (h.executors.each entry hentry)
  have hcomponents : Shaped 6 (.ofFields (Keyed.mapValues ComponentEntry.toValue j.components)) :=
    shaped_mapValues h.components.nodup fun entry hentry => (h.components.each entry hentry).shaped
  have hvalues : Shaped 2 (.ofFields (Keyed.mapValues Constant.toValue j.parameters)) :=
    shaped_mapValues h.values.nodup fun entry hentry => (h.values.each entry hentry).shaped
  have hspec : Shaped 10 (.ofFields [
      ("pipelineInfo", .ofFields [("name", .str j.infoName)]),
      ("sdkVersion", j.sdkVersion),
      ("schemaVersion", j.schemaVersion),
      ("deploymentSpec", .ofFields [
        ("executors", .ofFields (Keyed.mapValues executorDocument j.executors))]),
      ("components", .ofFields (Keyed.mapValues ComponentEntry.toValue j.components)),
      ("root", j.root.toValue)]) :=
    shaped_fields (by simp [Keyed.keys])
      ⟨(Shaped.str 8 j.infoName).field _, hsdk ▸ .str 9 sdk, hschema ▸ .str 9 schema,
        (hexecutors.field _).mono (by decide), hcomponents.mono (by decide), hroot⟩
  have hconfig : Shaped 3 (.ofFields [
      ("parameters", .ofFields (Keyed.mapValues Constant.toValue j.parameters)),
      ("gcsOutputDirectory", .str j.outputDirectory)]) :=
    shaped_fields (by simp [Keyed.keys]) ⟨hvalues, .str 2 j.outputDirectory⟩
  exact shaped_fields (by simp [Keyed.keys])
    ⟨htitled.displayName, hspec.mono hdepth, hconfig.mono (Nat.le_trans (by decide) hdepth)⟩

/-- Data that is made of texts has no floats. -/
theorem floats_textual {v : Value} (h : v.Textual) : floats v = [] := by
  induction h with
  | str => rfl
  | list each ih =>
    rw [floats_list]
    exact List.flatMap_eq_nil_iff.mpr ih
  | fields functional each ih =>
    rw [floats_ofFields]
    exact List.flatMap_eq_nil_iff.mpr ih
  | placed textual ih => exact ih

/-- The floats in documents under different keys. -/
theorem floats_mapValues {α : Type} (document : α → Value) (entries : Keyed α) :
    floats (.ofFields (Keyed.mapValues document entries)) =
      entries.flatMap fun entry => floats (document entry.2) := by
  rw [floats_ofFields, Keyed.mapValues, List.flatMap_map]

/-- The floats in a mapping with some fields. -/
theorem floats_fields (fields : List (String × Value)) (field : String × Value) :
    floats (.ofFields (field :: fields)) = floats field.2 ++ floats (.ofFields fields) := by
  rw [floats_ofFields, floats_ofFields, List.flatMap_cons]

/-- The floats in a mapping without fields. -/
theorem floats_noFields : floats (.ofFields []) = [] := rfl

/-- The floats in the document of a constant. -/
theorem floats_constant (c : Constant) : floats c.toValue = c.doubles := by
  cases c with
  | string | int | double => rfl

/-- The floats in the document of what a parameter is bound to. -/
theorem floats_parameter (source : ParameterSource) : floats source.toValue = source.doubles := by
  cases source with
  | constant c =>
    simp only [ParameterSource.toValue, floats_fields, floats_noFields, floats_constant,
      List.append_nil]
    rfl
  | pipelineInput | taskOutput => rfl

/-- The floats in what parameters are bound to. -/
theorem floats_parameterSources (sources : Keyed ParameterSource) :
    floats (parameterSources sources).2 = sources.flatMap (·.2.doubles) := by
  simp only [parameterSources, floats_mapValues, floats_parameter]

/-- There are none in what artifacts are bound to. -/
theorem floats_artifactSources (sources : Keyed ArtifactSource) :
    floats (artifactSources sources).2 = [] := by
  rw [artifactSources, floats_mapValues]
  refine List.flatMap_eq_nil_iff.mpr fun entry _ => ?_
  cases entry.2 with
  | pipelineInput | taskOutput => rfl

/-- The floats in the document of a task. -/
theorem floats_task (task : JobTask) : floats task.toValue = task.doubles := by
  have hinputs : floats (.ofFields task.inputFields) = task.doubles := by
    cases task with
    | step id component parameters artifacts caching =>
      simp only [JobTask.inputFields, floats_fields, floats_noFields, floats_parameterSources,
        floats_artifactSources, List.append_nil]
      rfl
    | conversion component source caching =>
      simp only [JobTask.inputFields, floats_fields, floats_noFields, floats_parameterSources,
        List.append_nil]
      rfl
  -- Dependencies are texts, which hold no floats.
  have hdependencies : (task.dependencyFields.flatMap fun field => floats field.2) = [] := by
    cases task with
    | conversion => rfl
    | step =>
      unfold JobTask.dependencyFields
      dsimp only
      split
      · rfl
      · rw [List.flatMap_singleton]
        exact floats_textual (textual_ofTexts _)
  rw [toValue_task, floats_ofFields, JobTask.fields, List.flatMap_append, List.flatMap_append,
    hdependencies, List.append_nil, taskHead, List.flatMap_cons, List.flatMap_cons,
    List.flatMap_singleton, hinputs]
  exact List.append_nil _

/-- **The floats in the document of a job** are those of its display name and those of the job. -/
theorem floats_job {j : Job} (h : j.Tidy) {depth : Nat} (htitled : j.Titled depth) :
    floats j.toValue = floats j.displayName ++ j.doubles := by
  obtain ⟨⟨sdk, hsdk⟩, ⟨schema, hschema⟩⟩ :=
    And.intro htitled.sdkVersion htitled.schemaVersion
  -- Executors, components, outputs and types hold texts only, so that tasks, parameter values and
  -- the title are what is left.
  have hexecutors : floats (.ofFields (Keyed.mapValues executorDocument j.executors)) = [] := by
    rw [floats_mapValues]
    refine List.flatMap_eq_nil_iff.mpr fun entry hentry => ?_
    obtain ⟨image, himage⟩ := h.executors.each entry hentry
    exact floats_textual (textual_executor (himage ▸ .str image))
  have hcomponents : floats (.ofFields (Keyed.mapValues ComponentEntry.toValue j.components)) =
      [] := by
    rw [floats_mapValues]
    exact List.flatMap_eq_nil_iff.mpr fun entry hentry =>
      floats_textual (textual_component (h.components.each entry hentry).parameters)
  have houtputs : floats (.ofFields (Keyed.mapValues outputDocument j.root.outputs)) = [] := by
    rw [floats_mapValues]
    exact List.flatMap_eq_nil_iff.mpr fun _ _ => rfl
  have hartifacts : ∀ names, floats (artifactTypes names).2 = [] := fun names =>
    floats_textual (textual_artifactTypes names)
  have hdefinitions : ∀ types names, (Keyed.keys types).Nodup →
      floats (.ofFields [parameterTypes types, artifactTypes names]) = [] := by
    intro types names hnodup
    have htypes : floats (parameterTypes types).2 = [] :=
      floats_textual (textual_parameterTypes hnodup)
    rw [floats_fields, floats_fields, htypes, hartifacts]
    rfl
  have hroot : floats j.root.toValue = j.root.tasks.flatMap (·.2.doubles) := by
    simp only [Root.toValue, floats_fields, floats_noFields, hdefinitions _ _ h.inputs, hartifacts,
      houtputs, floats_mapValues, floats_task, List.append_nil, List.nil_append]
  have hversions : floats j.sdkVersion = [] ∧ floats j.schemaVersion = [] := by
    rw [hsdk, hschema]
    exact ⟨rfl, rfl⟩
  have htexts : ∀ text, floats (.str text) = [] := fun _ => rfl
  simp only [Job.toValue, Job.doubles, floats_fields, floats_noFields, hversions, hexecutors,
    hcomponents, hroot, htexts, floats_mapValues, floats_constant, List.append_nil,
    List.nil_append]

/-- **A tidy job is written as JSON** from which it can be read again, and this is strict if and
    only if all floats in the job are finite. -/
theorem Job.Tidy.restored {j : Job} (h : j.Tidy) (htitled : j.Titled (Json.depthLimit - 1))
    (indent : Option Int) :
    ∃ text, toJson j.toValue indent = .ok text ∧ Json.read text = .ok j.toValue ∧
      (Json.IsStrict text ↔ ∀ x ∈ floats j.displayName ++ j.doubles, IsFinite x) := by
  obtain ⟨text, hwrite, hspells, hread⟩ :=
    (h.shaped htitled (by decide)).read_write (Nat.le_refl Json.depthLimit) indent
  refine ⟨text, hwrite, hread, ?_⟩
  rw [hspells.isStrict_iff, floats_job h htitled]

/-! ### Compiled jobs -/

/-- The settings that jobs show are texts. -/
structure TextualSettings (s : Settings) : Prop where
  image : s.HasImage
  sdkVersion : ∃ version, s.value "sdk_version" = .ok (.str version)
  schemaVersion : ∃ version, s.value "schema_version" = .ok (.str version)

/-- That is so in every context. -/
theorem exists_textualSettings {overrides metadata : Value} {context : Context}
    (h : (Context.create "vertex" overrides metadata).result = .ok context) :
    ∃ s, context.settings = .ok s ∧ TextualSettings s := by
  obtain ⟨s, hsettings, hshaped⟩ := exists_shaped h rfl rfl
  obtain ⟨image, himage, -⟩ := hshaped.exists_text "converter_image" rfl
  obtain ⟨version, hversion, -⟩ := hshaped.exists_text "sdk_version" rfl
  obtain ⟨schema, hschema, -⟩ := hshaped.exists_text "schema_version" rfl
  exact ⟨s, hsettings, ⟨image, himage⟩, ⟨version, hversion⟩, ⟨schema, hschema⟩⟩

/-- The name of a pipeline is shown, or a stand-in, and the versions are those of the settings. -/
theorem compile_titled {context : Context} {s : Settings} (hsettings : context.settings = .ok s)
    (hs : TextualSettings s) {c : Component} {depth : Nat} (hname : Shaped depth c.name)
    {arguments : Keyed Value} {outputDirectory contextName : String} {job : Job}
    (hok : (compile context c arguments outputDirectory contextName).result = .ok job) :
    job.Titled depth := by
  have hyields := Recorded.yields_true hok
  obtain ⟨sdk, hsdk⟩ := hs.sdkVersion
  obtain ⟨schema, hschema⟩ := hs.schemaVersion
  -- The steps of the compilation one by one; the two versions come from the settings.
  unfold compile at hyields
  obtain ⟨s', hs', hyields⟩ := Recorded.yields_bind.mp hyields
  obtain rfl : s' = s := Except.ok.inj ((Recorded.yields_lift.mp hs').symm.trans hsettings)
  obtain ⟨limit, -, hyields⟩ := Recorded.yields_bind.mp hyields
  obtain ⟨g, -, hyields⟩ := Recorded.yields_bind.mp hyields
  obtain ⟨⟨root, d⟩, -, hyields⟩ := Recorded.yields_bind.mp hyields
  obtain ⟨limit', -, hyields⟩ := Recorded.yields_bind.mp hyields
  obtain ⟨version, hversion, hyields⟩ := Recorded.yields_bind.mp hyields
  obtain rfl := Except.ok.inj ((Recorded.yields_lift.mp hversion).symm.trans hsdk)
  obtain ⟨version', hversion', hyields⟩ := Recorded.yields_bind.mp hyields
  obtain rfl := Except.ok.inj ((Recorded.yields_lift.mp hversion').symm.trans hschema)
  obtain ⟨texts, -, hyields⟩ := Recorded.yields_bind.mp hyields
  obtain ⟨parameters, -, hyields⟩ := Recorded.yields_bind.mp hyields
  obtain ⟨u, -, hyields⟩ := Recorded.yields_bind.mp hyields
  obtain rfl := Recorded.yields_pure.mp hyields
  refine ⟨?_, ⟨sdk, rfl⟩, schema, rfl⟩
  unfold Value.orElse
  split
  · exact hname
  · exact .str _ _

/-- **Every job is tidy, and what it shows has a form as JSON.** -/
theorem compile_printable {overrides metadata : Value} {context : Context}
    (hcontext : (Context.create "vertex" overrides metadata).result = .ok context) {c : Component}
    {depth : Nat} (hname : Shaped depth c.name) (hnames : c.Throughout Component.NamesDiffer)
    {arguments : Keyed Value} {outputDirectory contextName : String} {job : Job}
    (hok : (compile context c arguments outputDirectory contextName).result = .ok job) :
    job.Tidy ∧ job.Titled depth := by
  obtain ⟨s, hsettings, hs⟩ := exists_textualSettings hcontext
  have himages : ∀ s', context.settings = .ok s' → s'.HasImage := fun s' hs' =>
    Except.ok.inj (hsettings.symm.trans hs') ▸ hs.image
  exact ⟨compile_tidy himages hnames hok, compile_titled hsettings hs hname hok⟩

/-- **Jobs are written as JSON** from which they can be read again, whatever the pipeline, the
    arguments, the configuration and the indentation are.  The name of the pipeline has to be data
    that JSON has a form for, as texts are, and the names in the pipeline have to be different.  The
    JSON is strict if and only if all floats in the job are finite, and these are what texts stand
    for. -/
theorem job_restored {overrides metadata : Value} {context : Context}
    (hcontext : (Context.create "vertex" overrides metadata).result = .ok context) {c : Component}
    (hname : Shaped (Json.depthLimit - 1) c.name) (hnames : c.Throughout Component.NamesDiffer)
    (arguments : Keyed Value) (outputDirectory contextName : String) {job : Job}
    (hok : (compile context c arguments outputDirectory contextName).result = .ok job)
    (indent : Option Int) :
    ∃ text, toJson job.toValue indent = .ok text ∧ Json.read text = .ok job.toValue ∧
      (Json.IsStrict text ↔ ∀ x ∈ floats job.displayName ++ job.doubles, IsFinite x) ∧
      ∀ x ∈ job.doubles, ∃ given : String, Number.decimal? given.toList = some x := by
  obtain ⟨htidy, htitled⟩ := compile_printable hcontext hname hnames hok
  obtain ⟨text, hwrite, hread, hstrict⟩ := htidy.restored htitled indent
  exact ⟨text, hwrite, hread, hstrict, fun x hx => htidy.double hx⟩

/-! ### A pipeline with a number -/

/-- A pipeline with a number as its only input, for which there is none by default. -/
def ratedPipeline : Component :=
  { implementation := .container { image := "a", args := some [.inputValue "rate"] }
    name := .str "c", description := .null
    inputs := [{ name := "rate", type := .str "Float", default := some "nan" }]
    outputs := [], metadata := [] }

/-- Its names are different. -/
theorem ratedPipeline_differs : ratedPipeline.Throughout Component.NamesDiffer :=
  .intro ⟨by decide, by decide, (fun _ himpl => nomatch himpl), fun _ himpl => nomatch himpl⟩
    fun _ himpl => nomatch himpl

/-- The job of this pipeline with some arguments. -/
def ratedJob (arguments : Keyed Value) : Except Failure Job :=
  (compile { target := "vertex", config := Config.defaults } ratedPipeline arguments "").result

/-- With a number there is one whose floats are finite, and without it one where they are not. -/
theorem ratedJob_made :
    ((ratedJob [("rate", .str "0.5")]).toOption.any fun job =>
        (floats job.displayName ++ job.doubles).all fun x => !x.isNaN && !x.isInf) = true ∧
      ((ratedJob []).toOption.any fun job => job.doubles.any Float.isNaN) = true := by
  decide +kernel

/-- **With a number the JSON of the job is strict.** -/
theorem ratedJob_restored :
    (Context.create "vertex" .null .null).result =
        .ok { target := "vertex", config := Config.defaults } ∧
      Shaped (Json.depthLimit - 1) ratedPipeline.name ∧
      ratedPipeline.Throughout Component.NamesDiffer ∧
      ∃ job text, ratedJob [("rate", .str "0.5")] = .ok job ∧
        toJson job.toValue (some 2) = .ok text ∧ Json.read text = .ok job.toValue ∧
        Json.IsStrict text := by
  have hname : Shaped (Json.depthLimit - 1) ratedPipeline.name := .str _ "c"
  obtain ⟨job, hjob, hall⟩ := (Option.any_eq_true _ _).mp ratedJob_made.1
  have hok := toOption_eq_some.mp hjob
  obtain ⟨text, hwrite, hread, hstrict, -⟩ := job_restored (create_default "vertex") hname
    ratedPipeline_differs [("rate", .str "0.5")] "" "pipeline" hok (some 2)
  refine ⟨create_default "vertex", hname, ratedPipeline_differs, job, text, hok, hwrite, hread,
    hstrict.mpr fun x hx => ?_⟩
  have hx := List.all_eq_true.mp hall x hx
  rw [Bool.and_eq_true, Bool.not_eq_true', Bool.not_eq_true'] at hx
  exact hx

/-- **Without it the JSON of the job is not strict.** -/
theorem ratedJob_notStrict :
    (Context.create "vertex" .null .null).result =
        .ok { target := "vertex", config := Config.defaults } ∧
      ratedPipeline.Throughout Component.NamesDiffer ∧
      ∃ job text, ratedJob [] = .ok job ∧ toJson job.toValue (some 2) = .ok text ∧
        ¬ Json.IsStrict text ∧ ∃ x ∈ job.doubles, ¬ IsFinite x := by
  have hname : Shaped (Json.depthLimit - 1) ratedPipeline.name := .str _ "c"
  obtain ⟨job, hjob, hany⟩ := (Option.any_eq_true _ _).mp ratedJob_made.2
  have hok := toOption_eq_some.mp hjob
  obtain ⟨x, hx, hnan⟩ := List.any_eq_true.mp hany
  have hinfinite : ¬ IsFinite x := fun hfinite => by
    rw [hfinite.1] at hnan
    cases hnan
  obtain ⟨htidy, htitled⟩ :=
    compile_printable (create_default "vertex") hname ratedPipeline_differs hok
  obtain ⟨text, hwrite, -, hstrict⟩ := htidy.restored htitled (some 2)
  have hnot : ¬ Json.IsStrict text := fun h =>
    hinfinite (hstrict.mp h x (List.mem_append_right _ hx))
  exact ⟨create_default "vertex", ratedPipeline_differs, job, text, hok, hwrite, hnot, x, hx,
    hinfinite⟩

end PipelineCompiler.Vertex
