import PipelineCompiler.Proofs.Argo.Compile
import PipelineCompiler.Proofs.Component.Place

namespace PipelineCompiler.Argo

/-!
# Workflows are closed

* `PipelineCompiled`, `compile_spec` — what is left of the compilation of a pipeline;
* `Workflow.Closed` — all names in a workflow lead somewhere, and bindings and inputs match;
* `compile_closed` — every workflow that is made is closed.

The assumption on digests is about the run itself: the texts whose digests it takes, and compares,
have different digests when they are different.
-/

variable {P : String → Prop}

/-! ### Whole pipelines -/

/-- The inputs of a pipeline are available as parameters and as artifacts. -/
def rootKinds (c : Component) : Keyed InputKind :=
  c.inputNames.map fun name => (name, InputKind.any)

/-- An input of a pipeline is available in both ways. -/
theorem find?_rootKinds {c : Component} {input : String} (h : input ∈ c.inputNames) :
    Keyed.find? (rootKinds c) input = some .any := by
  have hmem : input ∈ Keyed.keys (rootKinds c) :=
    List.mem_map.mpr ⟨(input, .any), List.mem_map_of_mem h, rfl⟩
  obtain ⟨kind, hkind⟩ := Keyed.exists_find?_of_mem_keys hmem
  obtain ⟨name, -, heq⟩ := List.mem_map.mp (Keyed.mem_of_find? hkind)
  obtain ⟨-, rfl⟩ := Prod.mk.inj heq
  exact hkind

/-- Bindings of inputs of a pipeline to the texts that count for them. -/
def RootBound (c : Component) (texts : Keyed String) (names : List String)
    (bindings : List (String × String)) : Prop :=
  List.Forall₂ (fun name binding => name ∈ c.inputNames ∧ binding.1 = sanitizeIoName name ∧
    binding.2 = c.rootTextFor texts name) names bindings

/-- The arguments of a workflow are bindings of the inputs that are read. -/
theorem rootBindings_spec {c : Component} {texts : Keyed String} {names : List String}
    {bindings : List (String × String)}
    (hyields : (rootBindings c texts names).Yields P bindings) :
    RootBound c texts names bindings := by
  induction names generalizing bindings with
  | nil =>
    obtain rfl := Recorded.yields_pure.mp hyields
    exact .nil
  | cons name rest ih =>
    unfold rootBindings at hyields
    obtain ⟨input, hinput, hyields⟩ := Recorded.yields_bind.mp hyields
    obtain ⟨text, htext, hyields⟩ := Recorded.yields_bind.mp hyields
    obtain ⟨others, hothers, hyields⟩ := Recorded.yields_bind.mp hyields
    obtain rfl := Recorded.yields_pure.mp hyields
    have hfound := fetchInput_eq_ok.mp (Recorded.yields_lift.mp hinput)
    exact .cons ⟨input?_mem hfound, rfl, rootText_spec hfound htext⟩ (ih hothers)

/-- The inputs that are bound pass their checks. -/
theorem rootBindings_given {c : Component} {texts : Keyed String} {names : List String}
    {bindings : List (String × String)}
    (hyields : (rootBindings c texts names).Yields P bindings) :
    ∀ name ∈ names, c.checkInput (Keyed.has texts) name = .ok () := by
  induction names generalizing bindings with
  | nil => exact fun _ hname => nomatch hname
  | cons name rest ih =>
    unfold rootBindings at hyields
    obtain ⟨input, hinput, hyields⟩ := Recorded.yields_bind.mp hyields
    obtain ⟨text, htext, hyields⟩ := Recorded.yields_bind.mp hyields
    obtain ⟨others, hothers, -⟩ := Recorded.yields_bind.mp hyields
    exact List.forall_mem_cons.mpr
      ⟨checkInput_of_bound (Recorded.yields_lift.mp hinput) htext, ih hothers⟩

/-- Bindings have the legal names of their inputs. -/
theorem RootBound.names {c : Component} {texts : Keyed String} {names : List String}
    {bindings : List (String × String)} (h : RootBound c texts names bindings) :
    bindings.map (·.1) = names.map sanitizeIoName := by
  induction h with
  | nil => rfl
  | cons hbinding _ ih => rw [List.map_cons, List.map_cons, hbinding.2.1, ih]

/-- What is left of the compilation of a pipeline: the blueprint of its component, made from
    nothing, and the template made of it, which is the entry point. -/
structure PipelineCompiled (P : String → Prop) (s : Settings) (c : Component)
    (arguments : Keyed Value) (w : Workflow) (blueprint : Blueprint) : Prop where
  made : ∃ templates : Registry Template,
    (componentBlueprint s (rootArguments c) (rootKinds c) [] (.empty s.policy) c).Yields P
      (blueprint, templates) ∧
    BlueprintSound P (.empty s.policy) blueprint templates ∧
    Keyed.Within templates.entries w.templates
  named : ∃ templates : Registry Template, TemplatesSound P templates ∧
    templates.entries = w.templates ∧
    outline? templates w.entrypoint = some blueprint.template.outline
  bound : ∃ texts, (c.rootTexts arguments).Yields P texts ∧
    RootBound c texts blueprint.parameters w.parameters ∧
    RootBound c texts blueprint.artifacts w.artifacts

/-- There are no templates in the beginning. -/
theorem templatesSound_empty (s : Settings) : TemplatesSound P (.empty s.policy) :=
  ⟨Registry.sound_empty (policy_delimiter_legal s), chained_nil _⟩

/-- The compilation of a pipeline, opened: the template of its blueprint is interned. -/
theorem compile_interned {context : Context} {c : Component} {arguments : Keyed Value}
    {w : Workflow} (hyields : (compile context c arguments).Yields P w) :
    ∃ s blueprint templates templates', context.settings = .ok s ∧
      (componentBlueprint s (rootArguments c) (rootKinds c) [] (.empty s.policy) c).Yields P
        (blueprint, templates) ∧
      Registry.Interned P Template.record templates blueprint.template w.entrypoint templates' ∧
      templates'.entries = w.templates ∧
      ∃ texts, (c.rootTexts arguments).Yields P texts ∧
        RootBound c texts blueprint.parameters w.parameters ∧
        RootBound c texts blueprint.artifacts w.artifacts ∧
        ∀ name ∈ blueprint.parameters ++ blueprint.artifacts,
          c.checkInput (Keyed.has texts) name = .ok () := by
  -- The steps of the compilation one by one; what is not needed here, such as limits and
  -- annotations, is dropped as it comes.
  unfold compile at hyields
  obtain ⟨s, hs, hyields⟩ := Recorded.yields_bind.mp hyields
  obtain ⟨limit, -, hyields⟩ := Recorded.yields_bind.mp hyields
  obtain ⟨⟨blueprint, templates⟩, hblueprint, hyields⟩ := Recorded.yields_bind.mp hyields
  obtain ⟨⟨entrypoint, templates'⟩, htemplate, hyields⟩ := Recorded.yields_bind.mp hyields
  obtain ⟨texts, htexts, hyields⟩ := Recorded.yields_bind.mp hyields
  obtain ⟨parameters, hparameters, hyields⟩ := Recorded.yields_bind.mp hyields
  obtain ⟨artifacts, hartifacts, hyields⟩ := Recorded.yields_bind.mp hyields
  obtain ⟨nameLimit, -, hyields⟩ := Recorded.yields_bind.mp hyields
  obtain ⟨name, -, hyields⟩ := Recorded.yields_bind.mp hyields
  obtain ⟨stated, -, hyields⟩ := Recorded.yields_bind.mp hyields
  obtain ⟨annotations, -, hyields⟩ := Recorded.yields_bind.mp hyields
  obtain ⟨u, -, hyields⟩ := Recorded.yields_bind.mp hyields
  obtain rfl := Recorded.yields_pure.mp hyields
  exact ⟨s, blueprint, templates, templates', Recorded.yields_lift.mp hs, hblueprint,
    addTemplate_interned htemplate, rfl, texts, htexts, rootBindings_spec hparameters,
    rootBindings_spec hartifacts, fun name hname => (List.mem_append.mp hname).elim
      (rootBindings_given hparameters name) (rootBindings_given hartifacts name)⟩

/-- The same where digests tell texts apart: the template is added or shared. -/
theorem compile_shared (hsep : Separates P) {context : Context} {c : Component}
    {arguments : Keyed Value} {w : Workflow}
    (hyields : (compile context c arguments).Yields P w) :
    ∃ s blueprint templates templates', context.settings = .ok s ∧
      (componentBlueprint s (rootArguments c) (rootKinds c) [] (.empty s.policy) c).Yields P
        (blueprint, templates) ∧
      BlueprintSound P (.empty s.policy) blueprint templates ∧
      Registry.Shared P Template.record templates blueprint.template w.entrypoint templates' ∧
      templates'.entries = w.templates ∧
      ∃ texts, (c.rootTexts arguments).Yields P texts ∧
        RootBound c texts blueprint.parameters w.parameters ∧
        RootBound c texts blueprint.artifacts w.artifacts := by
  obtain ⟨s, blueprint, templates, templates', hs, hblueprint, hinterned, hentries, texts, htexts,
    hparameters, hartifacts, -⟩ := compile_interned hyields
  have hsound := blueprint_sound hsep c _ _ _ _ _ _ (templatesSound_empty s) hblueprint
  exact ⟨s, blueprint, templates, templates', hs, hblueprint, hsound,
    hinterned.shared hsep hsound.sound.sound, hentries, texts, htexts, hparameters, hartifacts⟩

/-- **The compilation of a pipeline.** -/
theorem compile_spec (hsep : Separates P) {context : Context} {c : Component}
    {arguments : Keyed Value} {w : Workflow}
    (hyields : (compile context c arguments).Yields P w) :
    ∃ s blueprint, context.settings = .ok s ∧ PipelineCompiled P s c arguments w blueprint := by
  obtain ⟨s, blueprint, templates, templates', hs, hblueprint, hsound, hshared,
    hentries, hbound⟩ :=
    compile_shared hsep hyields
  obtain ⟨ht, hgrows, hfound⟩ := hsound.sound.share hsound.closed hshared
  exact ⟨s, blueprint, hs, ⟨templates, hblueprint, hsound, hentries ▸ hgrows.within⟩,
    ⟨templates', ht, hentries, hfound⟩, hbound⟩

/-! ### A pipeline as an example -/

/-- A configuration with short settings. -/
def sampleContext : Context :=
  { target := "argo"
    config := .map [(.str "argo", .ofFields [
      ("container_inputs_dir", .str "/i"), ("container_outputs_dir", .str "/o"),
      ("io_file_name", .str "d"), ("converter_image", .str "a"), ("max_name_length", .int 63),
      ("max_generate_name_length", .int 240), ("workflow_annotations", .map [])])] }

/-- A component that writes an output. -/
def sampleProducer : Component :=
  { implementation := .container { image := "a", args := some [.outputPath "o"] }
    name := .str "a", description := .null, inputs := [], outputs := [{ name := "o" }]
    metadata := [] }

/-- A component that reads the value of an input. -/
def sampleConsumer : Component :=
  { implementation := .container { image := "a", args := some [.inputValue "x"] }
    name := .str "a", description := .null, inputs := [{ name := "x" }], outputs := []
    metadata := [] }

/-- A task that runs a component with some arguments. -/
def sampleTask (c : Component) (arguments : List (String × Argument)) : GraphTask :=
  { reference := { name := .null, digest := .null, tag := .null, url := .null, spec := some c }
    arguments, annotations := [] }

/-- A graph around the consumer, which passes its own input on. -/
def sampleGraph : Component :=
  { implementation := .graph
      { tasks := [("r", sampleTask sampleConsumer [("x", .graphInput "y" .null)])]
        outputValues := [] }
    name := .str "b", description := .null, inputs := [{ name := "y" }], outputs := []
    metadata := [] }

/-- A pipeline that passes the output of the producer into the graph around the consumer, where it
    has to be converted. -/
def samplePipeline : Component :=
  { implementation := .graph
      { tasks := [
          ("p", sampleTask sampleProducer []),
          ("q", sampleTask sampleGraph
            [("y", .taskOutput { task := "p", output := "o" })])]
        outputValues := [] }
    name := .str "c", description := .null, inputs := [], outputs := [], metadata := [] }

/-- There is a workflow of this pipeline, and all digests on the way to it are different. -/
theorem samplePipeline_compiles :
    (compile sampleContext samplePipeline []).result.toOption.isSome = true ∧
      ((compile sampleContext samplePipeline []).digested.map Digest.sha256Hex).Nodup := by
  decide +kernel

/-- The workflow of this pipeline. -/
theorem samplePipeline_result :
    ∃ w, (compile sampleContext samplePipeline []).result = .ok w := by
  obtain ⟨w, hw⟩ := Option.isSome_iff_exists.mp samplePipeline_compiles.1
  exact ⟨w, toOption_eq_some.mp hw⟩

/-! ### Closed workflows -/

/-- All names in a workflow lead somewhere.  Templates have different names, and the entry point
    is one of them.  Its inputs are the arguments of the workflow, in their order.  The graphs of
    all templates are closed. -/
structure Workflow.Closed (w : Workflow) : Prop where
  nodup : (Keyed.keys w.templates).Nodup
  entrypoint : ∃ t, Keyed.find? w.templates w.entrypoint = some t ∧
    w.parameters.map (·.1) = t.inputParameters ∧ w.artifacts.map (·.1) = t.inputArtifacts
  templates : ∀ entry ∈ w.templates, entry.2.Closed w.templates

/-- **Every workflow is closed.**  Whatever the component, the arguments and the configuration are,
    when there is a workflow all its names lead somewhere, the bindings of every task are for the
    inputs of its template, and graphs declare those inputs that their tasks refer to. -/
theorem compile_closed (context : Context) (c : Component) (arguments : Keyed Value) (w : Workflow)
    (hok : (compile context c arguments).result = .ok w)
    (hdigests : (compile context c arguments).SeparatesDigests) : w.Closed := by
  obtain ⟨s, blueprint, -, h⟩ := compile_spec hdigests (Recorded.yields_of_result hok)
  obtain ⟨templates, ht, heq, hentry⟩ := h.named
  obtain ⟨_, -, hblueprint, -⟩ := h.made
  obtain ⟨texts, -, hparameters, hartifacts⟩ := h.bound
  obtain ⟨t, hfind, houtline⟩ := Option.map_eq_some_iff.mp hentry
  refine ⟨heq ▸ ht.sound.nodup, ⟨t, heq ▸ hfind, ?_, ?_⟩, heq ▸ ht.closed⟩
  · rw [hparameters.names, ← hblueprint.parameters, ← Template.outline_parameters,
      ← Template.outline_parameters, houtline]
  · rw [hartifacts.names, ← hblueprint.artifacts, ← Template.outline_artifacts,
      ← Template.outline_artifacts, houtline]

/-- The workflow of the example is closed. -/
theorem samplePipeline_closed :
    ∃ w, (compile sampleContext samplePipeline []).result = .ok w ∧ w.Closed := by
  obtain ⟨w, hw⟩ := samplePipeline_result
  exact ⟨w, hw, compile_closed sampleContext samplePipeline [] w hw
    (separatesDigests_of_nodup samplePipeline_compiles.2)⟩

end PipelineCompiler.Argo
