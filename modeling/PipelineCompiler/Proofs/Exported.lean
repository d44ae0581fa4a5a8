import PipelineCompiler.Proofs.Argo.Shared
import PipelineCompiler.Proofs.Json.Canonical
import PipelineCompiler.Proofs.Vertex.Printed
import PipelineCompiler.Proofs.Yaml.Assembled

namespace PipelineCompiler

/-!
# Documents as YAML

* `Value.keys`, `Value.KeepsTexts` — data whose texts and keys come back from YAML;
* `KeepsTexts.restored` — it is written as YAML from which it is read again;
* `Argo.Workflow.shaped` — a workflow whose images are texts is data that JSON has a form for;
* `documents_restored` — so are all documents of pipelines.
-/

open Json (Shaped)

/-! ### Texts that come back -/

mutual

/-- The text keys of the mappings in a value. -/
def Value.keys : Value → List String
  | .list items | .tuple items | .set items => keysOf items
  | .map entries => keysIn entries
  | .placed _ v => keys v
  | _ => []

/-- The text keys of the mappings in items. -/
def Value.keysOf : List Value → List String
  | [] => []
  | item :: rest => keys item ++ keysOf rest

/-- The text keys in entries. -/
def Value.keysIn : List (Value × Value) → List String
  | [] => []
  | (.str key, value) :: rest => key :: (keys value ++ keysIn rest)
  | (key, value) :: rest => keys key ++ (keys value ++ keysIn rest)

end

/-- The keys in a list. -/
theorem mem_keys_list {items : List Value} {k : String} :
    k ∈ (Value.list items).keys ↔ ∃ v ∈ items, k ∈ v.keys := by
  rw [Value.keys]
  induction items with
  | nil => simp [Value.keysOf]
  | cons item rest ih => simp [Value.keysOf, ih]

/-- The keys in a mapping. -/
theorem mem_keys_ofFields {fields : List (String × Value)} {k : String} :
    k ∈ (Value.ofFields fields).keys ↔ ∃ field ∈ fields, k = field.1 ∨
      k ∈ field.2.keys := by
  rw [Value.ofFields, Value.keys]
  induction fields with
  | nil => simp [Value.keysIn]
  | cons field rest ih => simp [Value.keysIn, ih, or_assoc]

/-- Data whose texts come back from YAML, and whose keys come back as keys. -/
structure Value.KeepsTexts (v : Value) : Prop where
  texts : ∀ t ∈ v.texts, Yaml.Scalar.isKept t = true
  keys : ∀ k ∈ v.keys, Yaml.Scalar.isKeptKey k = true

/-- Data that JSON has a form for comes back from YAML if its texts do. -/
theorem Value.KeepsTexts.kept {v : Value} (h : v.KeepsTexts) {depth : Nat}
    (hshaped : Shaped depth v) : Yaml.Kept depth v := by
  -- By induction on the shape: texts and keys within the parts are among those of the whole.
  induction hshaped with
  | null => exact .atom .null
  | bool depth b => exact .atom (.bool b)
  | int depth short => exact .atom (.int short)
  | float depth x => exact .atom (.float x)
  | str depth s => exact .atom (.str (h.texts s List.mem_cons_self))
  | list each ih =>
    refine .list fun v hv => ih v hv ⟨fun t ht => ?_, fun k hk => ?_⟩
    · exact h.texts t (mem_texts_list.mpr ⟨v, hv, ht⟩)
    · exact h.keys k (mem_keys_list.mpr ⟨v, hv, hk⟩)
  | fields nodup each ih =>
    refine .fields nodup (fun field hfield => ?_) fun field hfield =>
      ih field hfield ⟨fun t ht => ?_, fun k hk => ?_⟩
    · exact h.keys _ (mem_keys_ofFields.mpr ⟨field, hfield, .inl rfl⟩)
    · exact h.texts t (mem_texts_ofFields.mpr ⟨field, hfield, .inr ht⟩)
    · exact h.keys k (mem_keys_ofFields.mpr ⟨field, hfield, .inr hk⟩)

/-- Data that JSON has a form for can be shown. -/
theorem isShownWithin_of_shaped {depth : Nat} {v : Value} (h : Shaped depth v)
    (around : List Nat) : v.isShownWithin around = true := by
  induction h with
  | null | bool | float | str => rfl
  | int depth short => rw [Value.isShownWithin, short]; rfl
  | list each ih => exact areShown_iff.mpr ih
  | fields nodup each ih => exact isShownWithin_ofFields.mpr ih

/-- **Data whose texts come back** is written as YAML from which it is read again. -/
theorem Value.KeepsTexts.restored {fields : List (String × Value)}
    (h : (Value.ofFields fields).KeepsTexts) (hne : fields ≠ [])
    (hshaped : Shaped Yaml.Outline.depthLimit (.ofFields fields)) :
    ∃ text, toYaml (.ofFields fields) = .ok text ∧ Yaml.read text = .ok (.ofFields fields) := by
  have hkept := h.kept hshaped
  refine ⟨Yaml.write (.ofFields fields), ?_, hkept.read_write hne (by decide)⟩
  rw [toYaml, hkept.not_isTooDeep (Nat.le_refl _), if_neg Bool.false_ne_true, Value.isShown,
    isShownWithin_of_shaped hshaped, if_pos rfl]

/-! ### Workflows -/

namespace Argo

open Vertex (shaped_fields shaped_launchFields)

/-- A list of documents. -/
theorem shaped_map {α : Type} {depth : Nat} {f : α → Value} {xs : List α}
    (h : ∀ x ∈ xs, Shaped depth (f x)) : Shaped (depth + 1) (.list (xs.map f)) :=
  .list (List.forall_mem_map.mpr h)

/-- Two texts under different names. -/
theorem shaped_pair (depth : Nat) {k l v w : String} (h : k ≠ l) :
    Shaped (depth + 1) (.ofFields [(k, .str v), (l, .str w)]) :=
  shaped_fields (by simp [Keyed.keys, h]) ⟨.str depth v, .str depth w⟩

/-- Something that has only a name. -/
theorem shaped_named (depth : Nat) (name : String) : Shaped (depth + 1) (named name) :=
  (Shaped.str depth name).field _

/-- A binding. -/
theorem shaped_boundTo (depth : Nat) {field : String} (hfield : "name" ≠ field)
    (binding : String × Reference) : Shaped (depth + 1) (boundTo field binding) :=
  shaped_pair depth hfield

/-- The arguments of a task. -/
theorem shaped_arguments (task : DagTask) : Shaped 3 (.ofFields task.arguments) := by
  have hvalue : "name" ≠ "value" := by decide
  have hfrom : "name" ≠ "from" := by decide
  cases task with
  | step template parameters artifacts =>
    exact shaped_fields (by simp [DagTask.arguments, listing, Keyed.keys])
      ⟨shaped_map fun binding _ => shaped_boundTo 0 hvalue binding,
        shaped_map fun binding _ => shaped_boundTo 0 hfrom binding⟩
  | conversion template source =>
    exact (Shaped.list (List.forall_mem_singleton.mpr (shaped_boundTo 0 hfrom _))).field _

/-- A task with its name. -/
theorem shaped_task (entry : String × DagTask) : Shaped 4 (DagTask.toValue entry) := by
  refine .fields ?_ fun field hfield => ?_
  · unfold DagTask.fields
    split
    · simp [Keyed.keys]
    · simp [Keyed.keys]
  · simp only [DagTask.fields, List.mem_cons, List.mem_append, List.not_mem_nil,
      or_false] at hfield
    rcases hfield with rfl | (rfl | rfl) | hfield
    · exact .str 3 _
    · exact .str 3 _
    · exact shaped_arguments entry.2
    · split at hfield
      · cases hfield
      · obtain rfl := List.mem_singleton.mp hfield
        exact Json.shaped_ofTexts 2 _

/-- A template whose container, if it has one, has a text for an image. -/
def Template.HasImage : Template → Prop
  | .container _ _ _ launch | .conversion _ _ launch => launch.HasImage
  | .dag _ _ _ _ => True

/-- The container of a template. -/
theorem shaped_containerDocument {launch : Launch} (h : launch.HasImage) :
    Shaped 3 (containerDocument launch) := by
  refine .fields ((launch.keys_fields.cons_cons "name").nodup (by decide)) fun field hfield => ?_
  rcases List.mem_cons.mp hfield with rfl | hfield
  · exact .str 2 "main"
  · exact shaped_launchFields h field hfield

/-- The inputs of a template. -/
theorem shaped_inputs (t : Template) : Shaped 3 (.ofFields t.inputs) := by
  cases t with
  | container parameters artifacts outputs launch =>
    exact shaped_fields (by simp [Template.inputs, listing, Keyed.keys])
      ⟨shaped_map fun name _ => shaped_named 0 name,
        shaped_map fun f _ => shaped_pair 0 (by decide)⟩
  | dag parameters artifacts outputs tasks =>
    exact shaped_fields (by simp [Template.inputs, listing, Keyed.keys])
      ⟨shaped_map fun name _ => shaped_named 0 name, shaped_map fun name _ =>
        shaped_named 0 name⟩
  | conversion input output launch =>
    exact (Shaped.list (List.forall_mem_singleton.mpr (shaped_pair 0 (by decide)))).field _

/-- The outputs of a template. -/
theorem shaped_outputs (t : Template) : Shaped 4 (.ofFields t.outputs) := by
  cases t with
  | container parameters artifacts outputs launch =>
    exact (shaped_map fun f _ => shaped_pair 1 (by decide)).field _
  | dag parameters artifacts outputs tasks =>
    exact (shaped_map fun binding _ => shaped_boundTo 1 (by decide) binding).field _
  | conversion input output launch =>
    have hparameter : Shaped 2 output.toParameter :=
      shaped_fields (by simp [Keyed.keys])
        ⟨.str 1 output.name, (Shaped.str 0 output.path).field _⟩
    exact (Shaped.list (List.forall_mem_singleton.mpr hparameter)).field _

/-- The document of a template. -/
theorem Template.HasImage.shaped {entry : String × Template} (h : entry.2.HasImage) :
    Shaped 7 (Template.toValue entry) := by
  obtain ⟨name, t⟩ := entry
  have hbody : Shaped 6 t.body.2 := by
    cases t with
    | container | conversion => exact (shaped_containerDocument h).mono (by decide)
    | dag => exact (shaped_map fun entry _ => shaped_task entry).field _
  have hkeys : (Keyed.keys (("name", Value.str name) :: t.fields)).Nodup := by
    cases t with
    | container | dag | conversion => simp [Template.fields, Template.body, Keyed.keys]
  exact shaped_fields hkeys ⟨.str 6 name, (shaped_inputs t).mono (by decide),
    (shaped_outputs t).mono (by decide), hbody⟩

/-- **A workflow is data that JSON has a form for** when its images are texts and its annotations
    are such data. -/
theorem Workflow.shaped {w : Workflow} {depth : Nat} (hdepth : 9 ≤ depth)
    (hannotations : Shaped (depth - 1) (.map w.annotations))
    (himages : ∀ entry ∈ w.templates, entry.2.HasImage) : Shaped (depth + 1) w.toValue := by
  -- The workflow part by part, from the outside in.
  have hmetadata : Shaped depth (.ofFields [("generateName", .str w.generateName),
      ("annotations", .map w.annotations)]) := by
    obtain ⟨inner, rfl⟩ := Nat.exists_eq_add_of_le' (Nat.le_trans (by decide : 1 ≤ 9) hdepth)
    exact shaped_fields (by simp [Keyed.keys]) ⟨.str inner w.generateName, hannotations⟩
  have hartifact : ∀ entry, Shaped 2 (Workflow.artifact entry) := fun entry =>
    shaped_fields (by simp [Keyed.keys]) ⟨.str 1 entry.1, (Shaped.str 0 entry.2).field _⟩
  have harguments : Shaped 4 (.ofFields [
      listing "parameters" (w.parameters.map Workflow.parameter),
      listing "artifacts" (w.artifacts.map Workflow.artifact)]) :=
    shaped_fields (by simp [Keyed.keys, listing])
      ⟨shaped_map fun entry _ => shaped_pair 1 (by decide), shaped_map fun entry _ =>
        hartifact entry⟩
  have htemplates : Shaped 8 (listing "templates" (w.templates.map Template.toValue)).2 :=
    shaped_map fun entry hentry => (himages entry hentry).shaped
  have hspec : Shaped 9 (.ofFields [
      ("entrypoint", .str w.entrypoint),
      listing "templates" (w.templates.map Template.toValue),
      ("arguments", .ofFields [
        listing "parameters" (w.parameters.map Workflow.parameter),
        listing "artifacts" (w.artifacts.map Workflow.artifact)])]) :=
    shaped_fields (by simp [Keyed.keys, listing])
      ⟨.str 8 w.entrypoint, htemplates, harguments.mono (by decide)⟩
  exact shaped_fields (by simp [Keyed.keys])
    ⟨.str depth _, .str depth _, hmetadata, hspec.mono hdepth⟩

/-- **The image of every template is a text** in every workflow of a context. -/
theorem compile_hasImage {overrides metadata : Value} {context : Context}
    (hcontext : (Context.create "argo" overrides metadata).result = .ok context) {c : Component}
    {arguments : Keyed Value} {w : Workflow}
    (hok : (compile context c arguments).result = .ok w) :
    ∀ entry ∈ w.templates, entry.2.HasImage := by
  obtain ⟨s, hsettings, hshaped⟩ := exists_shaped hcontext rfl rfl
  obtain ⟨image, himage, -⟩ := hshaped.exists_text "converter_image" rfl
  obtain ⟨s', root, hs', hmade⟩ := compile_made (Recorded.yields_true hok)
  obtain rfl := Except.ok.inj (hsettings.symm.trans hs')
  intro entry hentry
  -- The image is a setting in the template of conversions, and that of the container everywhere
  -- else.
  rcases hmade.templates entry hentry with hconversion | ⟨path, here, blueprint, hmakes, heq⟩
  · obtain ⟨input, -, hconversion⟩ := bind_eq_ok.mp hconversion
    obtain ⟨output, -, hconversion⟩ := bind_eq_ok.mp hconversion
    obtain ⟨image', himage', hconversion⟩ := bind_eq_ok.mp hconversion
    obtain rfl := Except.ok.inj (himage.symm.trans himage')
    rw [← pure_eq_ok.mp hconversion]
    exact ⟨image, rfl⟩
  · rw [heq]
    cases himpl : here.component.implementation with
    | container container =>
      obtain ⟨_, _, _, -, -, hyields, -⟩ := hmakes.exists_made
      obtain ⟨line, -, hblueprint⟩ := bind_eq_ok.mp (container_runs himpl hyields).2
      obtain ⟨artifacts, -, hblueprint⟩ := bind_eq_ok.mp hblueprint
      obtain ⟨outputs, -, hblueprint⟩ := bind_eq_ok.mp hblueprint
      obtain rfl := pure_eq_ok.mp hblueprint
      exact ⟨container.image, rfl⟩
    | graph g =>
      obtain ⟨order, d, hgraph⟩ := hmakes.graph himpl
      obtain ⟨outputs, -, htemplate⟩ := hgraph.template
      rw [htemplate]
      trivial

/-- The annotations of the workflows of a context. -/
def annotationsOf (context : Context) : Except Failure Value.Entries := do
  let s ← context.settings
  Value.mappingOf (← s.value "workflow_annotations")

/-- Every workflow has them. -/
theorem compile_annotations {context : Context} {c : Component} {arguments : Keyed Value}
    {w : Workflow} (hok : (compile context c arguments).result = .ok w) :
    annotationsOf context = .ok w.annotations := by
  have hyields := Recorded.yields_true hok
  -- The compilation step by step; only the settings and the annotations are needed of it.
  unfold compile at hyields
  obtain ⟨s, hs, hyields⟩ := Recorded.yields_bind.mp hyields
  obtain ⟨limit, -, hyields⟩ := Recorded.yields_bind.mp hyields
  obtain ⟨⟨blueprint, templates⟩, -, hyields⟩ := Recorded.yields_bind.mp hyields
  obtain ⟨⟨entrypoint, templates'⟩, -, hyields⟩ := Recorded.yields_bind.mp hyields
  obtain ⟨texts, -, hyields⟩ := Recorded.yields_bind.mp hyields
  obtain ⟨parameters, -, hyields⟩ := Recorded.yields_bind.mp hyields
  obtain ⟨artifacts, -, hyields⟩ := Recorded.yields_bind.mp hyields
  obtain ⟨nameLimit, -, hyields⟩ := Recorded.yields_bind.mp hyields
  obtain ⟨name, -, hyields⟩ := Recorded.yields_bind.mp hyields
  obtain ⟨stated, hstated, hyields⟩ := Recorded.yields_bind.mp hyields
  obtain ⟨annotations, hannotations, hyields⟩ := Recorded.yields_bind.mp hyields
  obtain ⟨u, -, hyields⟩ := Recorded.yields_bind.mp hyields
  obtain rfl := Recorded.yields_pure.mp hyields
  exact bind_eq_ok.mpr ⟨s, Recorded.yields_lift.mp hs, bind_eq_ok.mpr
    ⟨stated, Recorded.yields_lift.mp hstated, Recorded.yields_lift.mp hannotations⟩⟩

end Argo

/-! ### Documents of pipelines -/

/-- A document is written as YAML from which it is read again. -/
def Value.ComesBack (document : Value) : Prop :=
  ∃ text, toYaml document = .ok text ∧ Yaml.read text = .ok document

/-- **Documents of pipelines come back from YAML** if their texts do. -/
theorem documents_restored {overrides metadata : Value} {context : Context} {c : Component}
    {arguments : Keyed Value} :
    ((Context.create "argo" overrides metadata).result = .ok context →
      (∀ annotations, Argo.annotationsOf context = .ok annotations →
        Shaped (Yaml.Outline.depthLimit - 2) (.map annotations)) →
        ∀ w, (Argo.compile context c arguments).result = .ok w → w.toValue.KeepsTexts →
          w.toValue.ComesBack) ∧
    ((Context.create "vertex" overrides metadata).result = .ok context →
      Shaped (Yaml.Outline.depthLimit - 1) c.name → c.Throughout Component.NamesDiffer →
        ∀ outputDirectory contextName job,
          (Vertex.compile context c arguments outputDirectory contextName).result = .ok job →
            job.toValue.KeepsTexts → job.toValue.ComesBack) := by
  refine ⟨fun hcontext hannotations w hok htexts => ?_,
    fun hcontext hname hnames outputDirectory contextName job hok htexts => ?_⟩
  -- Documents are as deep as the annotations allow, two levels further in.
  · have hshaped := Argo.Workflow.shaped (by decide)
      (hannotations _ (Argo.compile_annotations hok)) (Argo.compile_hasImage hcontext hok)
    exact htexts.restored (List.cons_ne_nil _ _) hshaped
  -- A job holds nothing of the caller as data but the name of the pipeline.
  · obtain ⟨htidy, htitled⟩ := Vertex.compile_printable hcontext hname hnames hok
    exact htexts.restored (List.cons_ne_nil _ _) (htidy.shaped htitled (by decide))

/-! ### A pipeline with a text -/

/-- A pipeline that runs a container with a text. -/
def textPipeline (text : String) : Component :=
  { implementation := .container { image := "a", args := some [.literal text] }
    name := .str "c", description := .null, inputs := [], outputs := [], metadata := [] }

/-- Its names are different. -/
theorem textPipeline_differs (text : String) :
    (textPipeline text).Throughout Component.NamesDiffer :=
  .intro ⟨List.nodup_nil, List.nodup_nil, (fun _ himpl => nomatch himpl),
    fun _ himpl => nomatch himpl⟩ fun _ himpl => nomatch himpl

/-- The workflow of this pipeline. -/
def textWorkflow (text : String) : Except Failure Argo.Workflow :=
  (Argo.compile { target := "argo", config := Config.defaults } (textPipeline text) []).result

/-- Its job. -/
def textJob (text : String) : Except Failure Vertex.Job :=
  (Vertex.compile { target := "vertex", config := Config.defaults } (textPipeline text) []
    "").result

/-- The annotations of workflows by default are data that JSON has a form for. -/
theorem shaped_defaultAnnotations : ∀ annotations,
    Argo.annotationsOf { target := "argo", config := Config.defaults } = .ok annotations →
      Shaped (Yaml.Outline.depthLimit - 2) (.map annotations) := by
  intro annotations h
  obtain rfl : [(Value.str "cloud-pipelines.net/pipeline-editor", Value.str "true")] =
      annotations := Except.ok.inj h
  exact (Shaped.str _ "true").field _

/-- Whether the texts of a document come back, and its keys are short. -/
def Value.isKeptShort (v : Value) : Bool :=
  v.texts.all Yaml.Scalar.isKept &&
    v.keys.all fun k => Yaml.Scalar.isKept k && decide (k.length ≤ 102)

/-- Then its keys come back as well. -/
theorem keepsTexts_of_isKeptShort {v : Value} (h : v.isKeptShort = true) : v.KeepsTexts := by
  obtain ⟨htexts, hkeys⟩ := Bool.and_eq_true_iff.mp h
  refine ⟨List.all_eq_true.mp htexts, fun k hk => ?_⟩
  obtain ⟨hkept, hlength⟩ := Bool.and_eq_true_iff.mp (List.all_eq_true.mp hkeys k hk)
  exact Yaml.isKeptKey_of_length hkept (of_decide_eq_true hlength)

/-- With a text that needs an escape there are both documents, and their texts come back. -/
theorem textPipeline_kept :
    ((textWorkflow "a: b\t'é").toOption.any fun w => w.toValue.isKeptShort) = true ∧
      ((textJob "a: b\t'é").toOption.any fun job => job.toValue.isKeptShort) = true := by
  decide +kernel

/-- **Both come back.** -/
theorem textPipeline_restored :
    (Context.create "argo" .null .null).result =
        .ok { target := "argo", config := Config.defaults } ∧
      (Context.create "vertex" .null .null).result =
        .ok { target := "vertex", config := Config.defaults } ∧
      (∃ w, textWorkflow "a: b\t'é" = .ok w ∧ w.toValue.KeepsTexts ∧ w.toValue.ComesBack) ∧
      ∃ job, textJob "a: b\t'é" = .ok job ∧ job.toValue.KeepsTexts ∧
        job.toValue.ComesBack := by
  obtain ⟨w, hw, hwkept⟩ := (Option.any_eq_true _ _).mp textPipeline_kept.1
  obtain ⟨job, hjob, hjobkept⟩ := (Option.any_eq_true _ _).mp textPipeline_kept.2
  have hwok := toOption_eq_some.mp hw
  have hjobok := toOption_eq_some.mp hjob
  have hwkept := keepsTexts_of_isKeptShort hwkept
  have hjobkept := keepsTexts_of_isKeptShort hjobkept
  exact ⟨create_default "argo", create_default "vertex",
    ⟨w, hwok, hwkept,
      documents_restored.1 (create_default "argo") shaped_defaultAnnotations w hwok hwkept⟩,
    job, hjobok, hjobkept,
    documents_restored.2 (create_default "vertex") (.str _ "c") (textPipeline_differs _) ""
      "pipeline" job hjobok hjobkept⟩

end PipelineCompiler
