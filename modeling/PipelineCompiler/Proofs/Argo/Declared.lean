import PipelineCompiler.Proofs.Argo.Shared
import PipelineCompiler.Proofs.Reached

namespace PipelineCompiler.Argo

/-!
# Containers of a workflow declare what they use

* `Template.texts`, `texts_of_sameRecord` — the strings of a container, which its record
  determines;
* `DeclaresUses` — a template declares the inputs that a container uses, the outputs that it
  writes, and no inputs that do not occur in its strings;
* `containerBlueprint_declares` — the template that is made of a container does that;
* `compile_declares` — so do all templates of a workflow, and the one of every task.
-/

variable {P : String → Prop} {s : Settings} {c : Component}

/-- All strings of the container of a template. -/
def Template.texts : Template → List String
  | .container _ _ _ launch | .conversion _ _ launch => launch.texts
  | .dag _ _ _ _ => []

/-- A template declares what a container uses, where the container gets some arguments.  The names
    of inputs and outputs are legal ones, which several of them may share. -/
structure DeclaresUses (arguments : Keyed Argument) (container : Container) (t : Template) :
    Prop where
  /-- The parameters are the inputs whose values are reached. -/
  parameters : ∀ name, name ∈ t.inputParameters ↔
    ∃ input, container.Reaches arguments (.inputValue input) ∧ sanitizeIoName input = name
  /-- The artifacts are the inputs whose paths are reached. -/
  artifacts : ∀ name, name ∈ t.inputArtifacts ↔
    ∃ input, container.Reaches arguments (.inputPath input) ∧ sanitizeIoName input = name
  /-- The outputs that are reached are declared. -/
  outputs : ∀ output, container.Reaches arguments (.outputPath output) →
    sanitizeIoName output ∈ t.outputArtifacts
  /-- Every declared parameter occurs in a string of the container. -/
  parameterTexts : ∀ name ∈ t.inputParameters,
    Occurs (braced s!"inputs.parameters.{name}") t.texts
  /-- Every declared artifact occurs in a string of the container. -/
  artifactTexts : ∀ name ∈ t.inputArtifacts,
    Occurs (braced s!"inputs.artifacts.{name}.path") t.texts

/-! ### What is shared -/

/-- The container in the document of a template. -/
theorem container_of_mem {t : Template} {v : Value} (h : ("container", v) ∈ t.fields) :
    ∃ launch, v = containerDocument launch ∧ t.texts = launch.texts := by
  simp only [Template.fields, List.mem_cons, List.not_mem_nil, or_false] at h
  rcases h with h | h | h
  · exact absurd (Prod.mk.inj h).1 (by decide)
  · exact absurd (Prod.mk.inj h).1 (by decide)
  · cases t with
    | container _ _ _ launch => exact ⟨launch, (Prod.mk.inj h).2, rfl⟩
    | conversion _ _ launch => exact ⟨launch, (Prod.mk.inj h).2, rfl⟩
    | dag => exact absurd (Prod.mk.inj h).1 (by decide)

/-- Containers with alike documents have alike fields. -/
theorem fieldsAlike_of_alike {l l' : Launch}
    (h : Alike (containerDocument l) (containerDocument l')) : l.FieldsAlike l' := by
  intro k v hv
  obtain ⟨w, hw, halike⟩ := alike_ofFields h (List.mem_cons_of_mem _ hv)
  rcases List.mem_cons.mp hw with hw | hw
  · -- no field of a container but the added one is a name
    obtain ⟨rfl, -⟩ := Prod.mk.inj hw
    have hkey : "name" ∈ ["image", "command", "args", "env"] :=
      l.keys_fields.subset (List.mem_map_of_mem (f := (·.1)) hv)
    exact absurd hkey (by decide)
  · exact ⟨w, hw, halike⟩

/-- **Templates that are shared have the same strings.** -/
theorem texts_of_sameRecord {t u : Template} (h : SameRecord Template.record t u) {text : String}
    (htext : text ∈ u.texts) : text ∈ t.texts := by
  have hbody : ∃ launch, ("container", containerDocument launch) ∈ u.fields ∧
      u.texts = launch.texts := by
    cases u with
    | container _ _ _ launch => exact ⟨launch, by simp [Template.fields, Template.body], rfl⟩
    | conversion _ _ launch => exact ⟨launch, by simp [Template.fields, Template.body], rfl⟩
    | dag => cases htext
  obtain ⟨launch, hlaunch, htexts⟩ := hbody
  have hrecord : Alike u.record t.record := h.symm.alike unnamed_template
  obtain ⟨w, hw, halike⟩ := alike_ofFields hrecord hlaunch
  obtain ⟨launch', rfl, htexts'⟩ := container_of_mem hw
  rw [htexts] at htext
  rw [htexts']
  exact (fieldsAlike_of_alike halike).mem_texts htext

/-- A template that is shared with another one declares what that one does. -/
theorem DeclaresUses.of_sameRecord {arguments : Keyed Argument} {container : Container}
    {t u : Template} (h : DeclaresUses arguments container u)
    (hsame : SameRecord Template.record t u) : DeclaresUses arguments container t := by
  have houtline := outline_of_sameRecord hsame
  have hparameters : t.inputParameters = u.inputParameters := by
    rw [← t.outline_parameters, houtline, u.outline_parameters]
  have hartifacts : t.inputArtifacts = u.inputArtifacts := by
    rw [← t.outline_artifacts, houtline, u.outline_artifacts]
  refine ⟨hparameters ▸ h.parameters, hartifacts ▸ h.artifacts,
    outputArtifacts_of_sameRecord hsame ▸ h.outputs, fun name hname => ?_, fun name hname => ?_⟩
  · exact (h.parameterTexts name (hparameters ▸ hname)).mono fun _ => texts_of_sameRecord hsame
  · exact (h.artifactTexts name (hartifacts ▸ hname)).mono fun _ => texts_of_sameRecord hsame

/-! ### What is made -/

/-- **The template of a container declares what it uses.** -/
theorem containerBlueprint_declares {container : Container} {arguments : Keyed Argument}
    {blueprint : Blueprint} (h : containerBlueprint s c container arguments = .ok blueprint) :
    DeclaresUses arguments container blueprint.template := by
  obtain ⟨line, hline, h⟩ := bind_eq_ok.mp h
  obtain ⟨artifacts, hartifacts, h⟩ := bind_eq_ok.mp h
  obtain ⟨outputs, houtputs, h⟩ := bind_eq_ok.mp h
  obtain rfl := pure_eq_ok.mp h
  have hserves := commandLine_serves hline
  -- there is no other way to read a value than as a parameter
  have hreads : ∀ input, Expander.ReadsParameter { component := c, arguments, accessors } input :=
    fun _ _ _ hvalue => nomatch hvalue
  have hvalue : ∀ input, input ∈ line.valueInputs ↔
      container.Reaches arguments (.inputValue input) := fun input =>
    hserves.mem_valueInputs.trans (and_iff_left (hreads input))
  have hpath : ∀ input, input ∈ line.pathInputs ↔
      container.Reaches arguments (.inputPath input) := fun input =>
    hserves.mem_pathInputs.trans (or_iff_left fun h => h.2 (hreads input))
  have hnames : artifacts.map ArtifactFile.name = line.pathInputs.map sanitizeIoName :=
    names_of_mapM_fileOf hartifacts
  refine ⟨fun name => ?_, fun name => ?_, fun output houtput => ?_, fun name hname => ?_,
    fun name hname => ?_⟩
  · simp only [Template.inputParameters, List.mem_map, hvalue]
  · simp only [Template.inputArtifacts, hnames, List.mem_map, hpath]
  · rw [Template.outputArtifacts, names_of_mapM_fileOf houtputs]
    exact List.mem_map_of_mem (hserves.declared houtput)
  · obtain ⟨input, hinput, rfl⟩ := List.mem_map.mp hname
    exact hserves.occurs_parameter ((hvalue input).mp hinput) (hreads input)
  · rw [Template.inputArtifacts, hnames] at hname
    obtain ⟨input, hinput, rfl⟩ := List.mem_map.mp hname
    exact hserves.occurs_path ((hpath input).mp hinput)

/-- What is made of a container declares what it uses. -/
theorem Makes.declares {final : Keyed Template} {path : List String} {here : Placed}
    {blueprint : Blueprint} (h : Makes P s c final path here blueprint) {container : Container}
    (himpl : here.component.implementation = .container container) :
    DeclaresUses here.arguments container blueprint.template := by
  obtain ⟨_, _, _, -, -, hyields, -⟩ := h.exists_made
  exact containerBlueprint_declares (container_runs himpl hyields).2

/-! ### Whole workflows -/

/-- **The containers of a workflow declare what they use.**  Every template with a container that is
    no conversion is that of a container in the pipeline, and declares what this one uses.  If
    digests tell the texts of records apart, then the template of the task that stands for a
    container declares what the container uses, whoever shares it. -/
theorem compile_declares {context : Context} {arguments : Keyed Value} {w : Workflow}
    (hok : (compile context c arguments).result = .ok w) : ∃ s, context.settings = .ok s ∧
      (∀ entry ∈ w.templates, ∀ parameters artifacts outputs launch,
        entry.2 = .container parameters artifacts outputs launch →
        ∃ path here container, c.at? path = some here ∧
          here.component.implementation = .container container ∧
          DeclaresUses here.arguments container entry.2) ∧
      ((compile context c arguments).SeparatesDigests → ∀ path here container,
        c.at? path = some here → here.component.implementation = .container container →
        ∃ site t, emittedPath? s c path = some site ∧ w.templateAt? site = some t ∧
          DeclaresUses here.arguments container t) := by
  obtain ⟨s, root, hs, hmade⟩ := compile_made (Recorded.yields_of_result hok)
  -- Every template comes from a place in the pipeline, and what it declares is read off that place;
  -- the other way round a path leads to its template if digests are separate.
  refine ⟨s, hs, fun entry hentry parameters artifacts outputs launch hcontainer => ?_,
    fun hsep path here container hhere himpl => ?_⟩
  · rcases hmade.templates entry hentry with hconversion | ⟨path, here, blueprint, hmakes, heq⟩
    · have houtline := conversionTemplate_outline hconversion
      rw [hcontainer] at houtline
      cases houtline
    · cases himpl : here.component.implementation with
      | container container =>
        exact ⟨path, here, container, hmakes.place, himpl, heq ▸ hmakes.declares himpl⟩
      -- A graph makes no container.
      | graph g =>
        obtain ⟨order, d, hgraph⟩ := hmakes.graph himpl
        obtain ⟨_, -, htemplate⟩ := hgraph.template
        rw [← heq, hcontainer] at htemplate
        cases htemplate
  · obtain ⟨site, t, blueprint, hsite, ht, hmakes, hsame⟩ := hmade.templateAt hsep hhere
    exact ⟨site, t, hsite, ht, (hmakes.declares himpl).of_sameRecord hsame⟩

end PipelineCompiler.Argo
