import PipelineCompiler.Proofs.Launch
import PipelineCompiler.Vertex.Draft

namespace PipelineCompiler.Vertex

/-!
# Components of plain data

Where texts are whole, the records of executors, components and conversions are plain, so that they
can be found.

* `Complete` — the settings that jobs are made with;
* `executor_plain`, `component_plain`, `conversion_plain` — the records;
* `exists_conversionLaunch` — what conversions run.
-/

open Text

variable {s : Settings}

/-- The settings that jobs are made with are there. -/
structure Complete (s : Settings) : Prop where
  length : ∃ limit, s.nameLength = .ok (some limit)
  image : ∃ image, s.value "converter_image" = .ok image ∧ image.Plain
  caching : ∃ enabled, caching s = .ok enabled
  sdkVersion : ∃ version, s.value "sdk_version" = .ok version
  schemaVersion : ∃ version, s.value "schema_version" = .ok version

/-! ### References -/

/-- A text between braces. -/
theorem whole_braced {t : String} (h : Whole t) : Whole (braced t) :=
  whole_append.mpr ⟨whole_append.mpr ⟨whole_of_ascii (by decide), h⟩,
    whole_of_ascii (by decide)⟩

/-- A whole name between texts that are whole. -/
theorem whole_quoted {before after : String} (hbefore : Whole before) (hafter : Whole after)
    {name : String} (h : Whole name) : Whole (braced (before ++ name ++ after)) :=
  whole_braced (whole_append.mpr ⟨whole_append.mpr ⟨hbefore, h⟩, hafter⟩)

/-- References to whole names are whole. -/
theorem accessors_keepWhole : accessors.KeepWhole where
  parameterValue _ :=
    whole_quoted (whole_of_ascii (by decide)) (whole_of_ascii (by decide +kernel))
  artifactPath _ :=
    whole_quoted (whole_of_ascii (by decide)) (whole_of_ascii (by decide +kernel))
  outputPath _ :=
    whole_quoted (whole_of_ascii (by decide)) (whole_of_ascii (by decide +kernel))
  artifactValue access haccess _ := by
    obtain rfl := Option.some.inj haccess
    exact whole_quoted (whole_of_ascii (by decide)) (whole_of_ascii (by decide +kernel))

/-! ### Records -/

/-- **The record of an executor.** -/
theorem executor_plain {launch : Launch} (h : launch.Plain) :
    PlainFields [("container", .ofFields launch.fields)] :=
  .cons (whole_of_ascii (by decide)) h.fields.plain .nil

/-- The types of parameters with whole names. -/
theorem plain_parameterTypes {types : Keyed PrimitiveType} (h : ∀ entry ∈ types, Whole entry.1)
    {rest : List (String × Value)} (hrest : PlainFields rest) :
    PlainFields (parameterTypes types :: rest) := by
  have htypes : ∀ type : PrimitiveType, Whole type.name := fun type => by
    cases type with
    | string | int | double => exact whole_of_ascii (by decide)
  refine .cons (whole_of_ascii (by decide)) (PlainFields.plain fun field hfield => ?_) hrest
  obtain ⟨entry, hentry, rfl⟩ := List.mem_map.mp hfield
  exact ⟨h entry hentry,
    PlainFields.plain (.cons (whole_of_ascii (by decide)) (.str (htypes entry.2)) .nil)⟩

/-- The types of artifacts with whole names. -/
theorem plain_artifactTypes {names : List String} (h : ∀ name ∈ names, Whole name)
    {rest : List (String × Value)} (hrest : PlainFields rest) :
    PlainFields (artifactTypes names :: rest) := by
  have hdocument : artifactDocument.Plain :=
    PlainFields.plain (.cons (whole_of_ascii (by decide))
      (PlainFields.plain (.cons (whole_of_ascii (by decide))
        (.str (whole_of_ascii (by decide))) .nil)) .nil)
  refine .cons (whole_of_ascii (by decide)) (PlainFields.plain fun field hfield => ?_) hrest
  obtain ⟨name, hname, rfl⟩ := List.mem_map.mp hfield
  exact ⟨h name hname, hdocument⟩

/-- The fields of a component with plain inputs. -/
theorem plain_component {inputs : List (String × Value)} (hinputs : PlainFields inputs)
    {outputs : List String} (houtputs : ∀ name ∈ outputs, Whole name) {executor : String}
    (hexecutor : Whole executor) :
    PlainFields [
      ("inputDefinitions", .ofFields inputs),
      ("outputDefinitions", .ofFields [artifactTypes outputs]),
      ("executorLabel", .str executor)] :=
  .cons (whole_of_ascii (by decide)) hinputs.plain
    (.cons (whole_of_ascii (by decide)) (plain_artifactTypes houtputs .nil).plain
      (.cons (whole_of_ascii (by decide)) (.str hexecutor) .nil))

/-- **The record of a component has a text**, if its names are whole. -/
theorem component_text {entry : ComponentEntry}
    (hparameters : ∀ parameter ∈ entry.parameters, Whole parameter.1)
    (hartifacts : ∀ name ∈ entry.artifacts, Whole name)
    (houtputs : ∀ name ∈ entry.outputs, Whole name) (hexecutor : Whole entry.executor) :
    ∃ text, structuralText (some "name") entry.toValue = .ok text := by
  cases entry with
  | step parameters artifacts outputs executor =>
    exact (plain_component (plain_parameterTypes hparameters (plain_artifactTypes hartifacts .nil))
      houtputs hexecutor).structuralText "name"
  | conversion executor =>
    exact (plain_component (plain_parameterTypes hparameters .nil) houtputs
      hexecutor).structuralText "name"

/-- What a conversion converts is a text or an input of the pipeline, and it is whole. -/
inductive ParameterSource.IsWhole : ParameterSource → Prop
  | constant {text : String} (whole : Whole text) : IsWhole (.constant (.string text))
  | pipelineInput {name : String} (whole : Whole name) : IsWhole (.pipelineInput name)

/-- The document of such a source. -/
theorem ParameterSource.IsWhole.plain {source : ParameterSource} (h : source.IsWhole) :
    source.toValue.Plain := by
  have hkeys : ∀ key ∈ ["runtimeValue", "constantValue", "stringValue",
      "componentInputParameter"], Whole key := by
    decide
  cases h with
  | constant whole =>
    exact PlainFields.plain (.cons (hkeys _ (by simp)) (PlainFields.plain
      (.cons (hkeys _ (by simp)) (PlainFields.plain
        (.cons (hkeys _ (by simp)) (.str whole) .nil)) .nil)) .nil)
  | pipelineInput whole => exact PlainFields.plain (.cons (hkeys _ (by simp)) (.str whole) .nil)

/-- **The record of a conversion has a text.** -/
theorem conversion_text {component : String} (hcomponent : Whole component)
    {source : ParameterSource} (hsource : source.IsWhole) (caching : Bool) :
    ∃ text, structuralText (some "name") (JobTask.conversion component source caching).toValue
      = .ok text := by
  -- All keys are words of the format, and the only texts of the caller are the two that are whole.
  have hkeys : ∀ key ∈ ["taskInfo", "name", "componentRef", "inputs", "parameters",
      "cachingOptions", "enableCache", conversionName, conversionInput], Whole key := by
    decide
  have hname : ∀ {name : String}, Whole name → (Value.ofFields [("name", .str name)]).Plain :=
    fun h => PlainFields.plain (.cons (hkeys _ (by simp)) (.str h) .nil)
  have hinputs : (Value.ofFields [parameterSources [(conversionInput, source)]]).Plain :=
    PlainFields.plain (.cons (hkeys _ (by simp))
      (PlainFields.plain (.cons (hkeys _ (by simp)) hsource.plain .nil)) .nil)
  have hcaching : (Value.ofFields [("enableCache", .bool caching)]).Plain :=
    PlainFields.plain (.cons (hkeys _ (by simp)) (.bool caching) .nil)
  have hfields : PlainFields (taskHead conversionName component
      [parameterSources [(conversionInput, source)]] ++ [cachingField caching]) :=
    .cons (hkeys _ (by simp)) (hname (hkeys _ (by simp)))
      (.cons (hkeys _ (by simp)) (hname hcomponent)
        (.cons (hkeys _ (by simp)) hinputs (.cons (hkeys _ (by simp)) hcaching .nil)))
  exact hfields.structuralText "name"

/-- **What conversions run** is there, and plain. -/
theorem exists_conversionLaunch (hs : Complete s) :
    ∃ launch, Draft.conversionLaunch s = .ok launch ∧ launch.Plain := by
  obtain ⟨image, himage, hplain⟩ := hs.image
  refine ⟨_, by rw [Draft.conversionLaunch, himage]; rfl, ?_⟩
  refine ⟨hplain, fun tokens htokens => ?_, (fun _ h => nomatch h), fun _ h => nomatch h⟩
  obtain rfl := Option.some.inj htokens
  exact fun t ht => by revert t; decide

end PipelineCompiler.Vertex
