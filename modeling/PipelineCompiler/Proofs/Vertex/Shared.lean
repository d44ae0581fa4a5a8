import PipelineCompiler.Proofs.Launch
import PipelineCompiler.Proofs.Naming.Registry
import PipelineCompiler.Proofs.Reached
import PipelineCompiler.Proofs.Vertex.Closure

namespace PipelineCompiler.Vertex

/-!
# Executors and components are shared exactly when they are equal

The inputs of a task are in the document of its component, and the strings in that of its executor.
Both are shared on their own.

* `textual_executor`, `textual_component` — the records of executors and components are made of
  texts;
* `sameExecutor`, `sameComponent` — those that are shared with the ones that a task asks for are
  equal to these;
* `SharedExactly`, `job_shared_exactly` — no two executors and no two components are equal, and
  every task has those that its own command line asks for;
* `DeclaresUses` — a component declares the inputs that a container uses and the outputs that it
  writes, and all inputs occur in the strings of the executor;
* `executorTexts_of_sameRecord`, `declares_of_sameRecord` — executors that are shared have the
  same strings, and what a task runs declares what it uses;
* `job_declares` — this holds of every task of a pipeline.

A container of a pipeline may run what conversions run.  Then one executor is there for both, and
its image is the one of the configuration; the texts show that it is the same.
-/

/-! ### Records are made of texts -/

/-- The document of an artifact. -/
theorem textual_artifact : artifactDocument.Textual := by
  refine textual_of_nodup (List.nodup_singleton _) fun field hfield => ?_
  obtain rfl := List.mem_singleton.mp hfield
  refine textual_of_nodup (List.nodup_singleton _) fun field hfield => ?_
  obtain rfl := List.mem_singleton.mp hfield
  exact .str _

/-- Documents of artifacts under a name.  A name that is there twice has one document. -/
theorem textual_artifactTypes (names : List String) : (artifactTypes names).2.Textual := by
  have hdocument : ∀ field ∈ names.map fun name => (name, artifactDocument),
      field.2 = artifactDocument := by
    intro field hfield
    obtain ⟨name, -, rfl⟩ := List.mem_map.mp hfield
    rfl
  refine .fields (fun k v w hv hw => ?_) fun field hfield => ?_
  · exact (hdocument _ hv).trans (hdocument _ hw).symm
  · rw [hdocument field hfield]
    exact textual_artifact

/-- Documents of parameters under a name. -/
theorem textual_parameterTypes {types : Keyed PrimitiveType} (h : (Keyed.keys types).Nodup) :
    (parameterTypes types).2.Textual := by
  refine textual_of_nodup (by rwa [keys_mapValues]) fun field hfield => ?_
  obtain ⟨entry, -, rfl⟩ := List.mem_map.mp hfield
  refine textual_of_nodup (List.nodup_singleton _) fun field hfield => ?_
  obtain rfl := List.mem_singleton.mp hfield
  exact .str _

/-- **The record of a component is made of texts**, if its parameters have different names. -/
theorem textual_component {c : ComponentEntry} (h : (Keyed.keys c.parameters).Nodup) :
    c.toValue.Textual := by
  rw [toValue_component]
  refine textual_of_nodup (by simp [ComponentEntry.fields, Keyed.keys]) fun field hfield => ?_
  simp only [ComponentEntry.fields, List.mem_cons, List.not_mem_nil, or_false] at hfield
  rcases hfield with rfl | rfl | rfl
  · have hparameters := textual_parameterTypes h
    -- Both kinds of components have their inputs as names and types, which are texts.
    cases c with
    | step parameters artifacts outputs executor =>
      refine textual_of_nodup (by simp [ComponentEntry.inputFields, parameterTypes, artifactTypes,
        Keyed.keys]) fun field hfield => ?_
      simp only [ComponentEntry.inputFields, List.mem_cons, List.not_mem_nil, or_false] at hfield
      rcases hfield with rfl | rfl
      · exact hparameters
      · exact textual_artifactTypes artifacts
    | conversion executor =>
      refine textual_of_nodup (List.nodup_singleton _) fun field hfield => ?_
      obtain rfl := List.mem_singleton.mp hfield
      exact hparameters
  · refine textual_of_nodup (List.nodup_singleton _) fun field hfield => ?_
    obtain rfl := List.mem_singleton.mp hfield
    exact textual_artifactTypes c.outputs
  · exact .str _

/-- **The record of an executor is made of texts**, its image provided. -/
theorem textual_executor {l : Launch} (himage : l.image.Textual) :
    (executorDocument l).Textual := by
  refine textual_of_nodup (List.nodup_singleton _) fun field hfield => ?_
  obtain rfl := List.mem_singleton.mp hfield
  exact textual_of_nodup (l.keys_fields.nodup (by decide)) (l.textual himage)

/-- The record of a component says nothing about its name. -/
theorem unnamed_component : Unnamed ComponentEntry.toValue :=
  fun c => ⟨c.fields, toValue_component c, componentFields_unnamed c⟩

/-- The record of an executor says nothing about its name. -/
theorem unnamed_executor : Unnamed executorDocument := by
  refine fun l => ⟨_, rfl, fun field hfield => ?_⟩
  obtain rfl := List.mem_singleton.mp hfield
  exact show "container" ≠ "name" by decide

/-! ### What is shared is equal -/

/-- **A component that is found is equal to the one that was asked for.** -/
theorem sameComponent {found asked : ComponentEntry}
    (hnodup : (Keyed.keys asked.parameters).Nodup)
    (h : SameRecord ComponentEntry.toValue found asked) : found.toValue.Same asked.toValue := by
  have hmem : ∀ c : ComponentEntry, parameterTypes c.parameters ∈ c.inputFields := by
    intro c
    cases c with
    | step | conversion => exact List.mem_cons_self
  have hparameters : Alike (parameterTypes found.parameters).2
    (parameterTypes asked.parameters).2 := by
    refine alike_field (inputFields_alike (alike_of_sameComponent h)) (k := "parameters")
      (hmem found) fun w hw => ?_
    cases asked with
    | step =>
      simp only [ComponentEntry.inputFields, parameterTypes, artifactTypes, List.mem_cons,
        Prod.mk.injEq, List.not_mem_nil, or_false, true_and] at hw
      rcases hw with rfl | ⟨hne, -⟩
      · rfl
      -- the list of artifacts has another name
      · exact absurd hne (by decide)
    | conversion => exact (Prod.mk.inj (List.mem_singleton.mp hw)).2
  have hperm := keys_perm_of_alike hparameters
  rw [keys_mapValues, keys_mapValues] at hperm
  exact h.same unnamed_component (textual_component (hperm.nodup_iff.mpr hnodup))
    (textual_component hnodup)

/-- **An executor that is found is equal to the one that was asked for**, whatever the image of
    conversions is. -/
theorem sameExecutor {found asked : Launch} {image : String} (himage : asked.image = .str image)
    (h : SameRecord executorDocument found asked) :
    (executorDocument found).Same (executorDocument asked) := by
  have hasked : asked.image.Textual := himage ▸ .str image
  -- Records that are found by digest are alike, and for an image that is a text, alike means the
  -- same.
  have halike : Alike (executorDocument found) (executorDocument asked) :=
    h.alike unnamed_executor
  have hcontainer : Alike (.ofFields found.fields) (.ofFields asked.fields) :=
    alike_field halike (k := "container") List.mem_cons_self
      fun w hw => (Prod.mk.inj (List.mem_singleton.mp hw)).2
  have hmem : ∀ l : Launch, ("image", l.image) ∈ l.fields := by
    intro l
    simp [Launch.fields]
  have hfound : Alike found.image (.str image) := by
    rw [← himage]
    refine alike_field hcontainer (hmem found) fun w hw => ?_
    have hnodup : (Keyed.keys asked.fields).Nodup := asked.keys_fields.nodup (by decide)
    have hfind := Keyed.find?_of_mem hnodup hw
    exact Option.some.inj (hfind.symm.trans (Keyed.find?_of_mem hnodup (hmem asked)))
  exact h.same unnamed_executor (textual_executor (textual_of_alike_str hfound))
    (textual_executor hasked)

/-! ### Whole jobs -/

variable {P : String → Prop} {s : Settings} {c : Component}

/-- Executors and components are shared exactly when they are equal, in a job of a graph with the
    inputs of a component, whose tasks have some names. -/
structure SharedExactly (c : Component) (g : Graph) (names : Keyed String) (j : Job) : Prop where
  /-- No two executors are equal. -/
  executors : j.executors.Pairwise fun entry other =>
    ¬ (executorDocument entry.2).Same (executorDocument other.2)
  /-- No two components are equal. -/
  components : j.components.Pairwise fun entry other => ¬ entry.2.toValue.Same other.2.toValue
  /-- Every task of the graph has a component and an executor that are equal to those that its own
      command line asks for. -/
  equal : ∀ id task, g.task? id = some task →
    ∃ component container line name made found launch,
      task.reference.spec = some component ∧ component.implementation = .container container ∧
      Binder.commandLine
        { id, component, arguments := task.arguments, pipelineParameters := c.inputNames } container
          = .ok line ∧
      Keyed.find? names id = some name ∧ Keyed.find? j.root.tasks name = some made ∧
      Keyed.find? j.components made.component = some found ∧
      Keyed.find? j.executors found.executor = some launch ∧
      found.toValue.Same (ComponentEntry.toValue (.step (declaredTypes component line.valueInputs)
        line.pathInputs component.outputNames found.executor)) ∧
      (executorDocument launch).Same
        (executorDocument (.ofCommandLine container.image line))

/-- What is made of a pipeline is shared exactly. -/
theorem PipelineCompiled.sharedExactly {arguments : Keyed Value} {g : Graph} {order : List String}
    {job : Job} {d : Draft} (h : PipelineCompiled P s c arguments g order job d) :
    SharedExactly c g (emittedNames s order) job where
  executors := by
    rw [h.executors]
    exact h.compiled.sound.executorsComplete.different unnamed_executor
      h.compiled.sound.executors.nodup
  components := by
    rw [h.components]
    exact h.compiled.sound.componentsComplete.different unnamed_component
      h.compiled.sound.components.nodup
  equal := by
    intro id task htask
    obtain ⟨component, line, name, hstep⟩ := h.stepAt htask
    obtain ⟨container, hcontainer, hline⟩ := hstep.commandLine
    obtain ⟨container', made, found, launch, hcontainer', hmade, hfound, hsame,
      hlaunch, hsame'⟩ :=
      hstep.runs
    obtain rfl := Implementation.container.inj (hcontainer.symm.trans hcontainer')
    -- No input is declared twice, so the component that was found declares each with the same type.
    have hnodup := (commandLine_uses (admits_isProperUse rfl rfl) hline).valuesNodup
    refine ⟨component, container, line, name, made, found, launch, hstep.spec, hcontainer, hline,
      hstep.named, hmade, hfound, hlaunch, sameComponent ?_ hsame, sameExecutor rfl hsame'⟩
    show (Keyed.keys (declaredTypes component line.valueInputs)).Nodup
    rw [keys_declaredTypes]
    exact hnodup

/-- **Executors and components are shared exactly when they are equal**, whatever the pipeline
    is. -/
theorem job_shared_exactly {context : Context} {arguments : Keyed Value}
    {outputDirectory contextName : String} {job : Job}
    (hok : (compile context c arguments outputDirectory contextName).result = .ok job)
    (hdigests : (compile context c arguments outputDirectory contextName).SeparatesDigests) :
    ∃ s g order, context.settings = .ok s ∧ asGraph c = .ok g ∧
      g.order c.inputNames = .ok order ∧
      SharedExactly c g (emittedNames s order) job := by
  obtain ⟨s, g, order, d, hs, h⟩ := compile_spec hdigests (Recorded.yields_of_result hok)
  exact ⟨s, g, order, hs, h.graph, h.ordered, h.sharedExactly⟩

/-! ### Uses are declared -/

variable {c : Component}

/-- A component declares what a container of the pipeline uses, where it gets some arguments, and
    the strings of an executor contain it.  An input whose value is read is a parameter unless its
    argument is available as an artifact only. -/
structure DeclaresUses (component : Component) (arguments : Keyed Argument)
    (pipelineParameters : List String) (container : Container) (found : ComponentEntry)
    (launch : Launch) : Prop where
  /-- The parameters are the inputs whose values are read as parameters. -/
  parameters : ∀ input, input ∈ Keyed.keys found.parameters ↔
    container.Reaches arguments (.inputValue input) ∧
      input ∈ component.parameterInputs arguments pipelineParameters
  /-- The artifacts are the inputs whose paths are read, or values from the files of artifacts. -/
  artifacts : ∀ input, input ∈ found.artifacts ↔
    container.Reaches arguments (.inputPath input) ∨
      container.Reaches arguments (.inputValue input) ∧
        input ∉ component.parameterInputs arguments pipelineParameters
  /-- The outputs that are reached are declared. -/
  outputs : ∀ output, container.Reaches arguments (.outputPath output) →
    output ∈ found.outputs
  /-- Every declared parameter occurs in a string of the executor. -/
  parameterTexts : ∀ input ∈ Keyed.keys found.parameters,
    Occurs (braced s!"inputs.parameters['{input}']") launch.texts
  /-- The path of an artifact occurs where it is read. -/
  pathTexts : ∀ input, container.Reaches arguments (.inputPath input) →
    Occurs (braced s!"inputs.artifacts['{input}'].path") launch.texts
  /-- The value of an artifact occurs where it is read. -/
  valueTexts : ∀ input, container.Reaches arguments (.inputValue input) →
    input ∉ component.parameterInputs arguments pipelineParameters →
    Occurs (braced s!"inputs.artifacts['{input}'].value") launch.texts

/-- **Executors that are shared have the same strings.** -/
theorem executorTexts_of_sameRecord {l l' : Launch} (h : SameRecord executorDocument l l')
    {text : String} (htext : text ∈ l'.texts) : text ∈ l.texts := by
  have halike : Alike (executorDocument l') (executorDocument l) := h.symm.alike unnamed_executor
  have hcontainer : Alike (.ofFields l'.fields) (.ofFields l.fields) :=
    alike_field halike (k := "container") List.mem_cons_self
      fun w hw => (Prod.mk.inj (List.mem_singleton.mp hw)).2
  exact Launch.FieldsAlike.mem_texts (fun _ _ hv => alike_ofFields hcontainer hv) htext

/-- **What a task runs declares what it uses.** -/
theorem declares_of_sameRecord {component : Component} {arguments : Keyed Argument} {id : String}
    {pipelineParameters : List String} {container : Container} {line : CommandLine}
    (hline : Binder.commandLine { id, component, arguments, pipelineParameters } container
      = .ok line) {found : ComponentEntry} {launch : Launch} {executor : String}
    (hfound : SameRecord ComponentEntry.toValue found
      (.step (declaredTypes component line.valueInputs) line.pathInputs component.outputNames
        executor))
    (hlaunch : SameRecord executorDocument launch (.ofCommandLine container.image line)) :
    DeclaresUses component arguments pipelineParameters container found launch := by
  -- What a task runs is given by its command line, and what it declares by the same lists; both are
  -- the same up to names.
  have hserves := commandLine_serves hline
  have hreads : ∀ input, Expander.ReadsParameter
      { component, arguments, accessors,
        parameters := some (component.parameterInputs arguments pipelineParameters) } input ↔
      input ∈ component.parameterInputs arguments pipelineParameters := by
    intro input
    constructor
    · exact fun h => h _ _ rfl rfl
    · rintro h _ _ - hparameters
      exact Option.some.inj hparameters ▸ h
  have htexts : ∀ {text}, Occurs text line.texts → Occurs text launch.texts := fun h =>
    h.mono fun _ => executorTexts_of_sameRecord hlaunch
  have hlists := (lists_of_sameRecord hfound).1
  rw [keys_declaredTypes] at hlists
  have hparameters : ∀ input, input ∈ Keyed.keys found.parameters ↔
      container.Reaches arguments (.inputValue input) ∧
        input ∈ component.parameterInputs arguments pipelineParameters := fun input =>
    (hlists.parameters input).trans <|
      hserves.mem_valueInputs.trans (and_congr_right fun _ => hreads input)
  refine ⟨hparameters, fun input => ?_, fun output houtput => ?_, fun input hinput => ?_,
    fun input hinput => ?_, fun input hinput hnot => ?_⟩
  · rw [hlists.artifacts input, hserves.mem_pathInputs, hreads input]
  · exact (hlists.outputs output).mpr (hserves.declared houtput)
  · obtain ⟨hreaches, hmem⟩ := (hparameters input).mp hinput
    exact htexts (hserves.occurs_parameter hreaches ((hreads input).mpr hmem))
  · exact htexts (hserves.occurs_path hinput)
  · obtain ⟨artifactValue, hvalue, hoccurs⟩ :=
      hserves.occurs_artifactValue hinput fun h => hnot ((hreads input).mp h)
    obtain rfl := Option.some.inj hvalue
    exact htexts hoccurs

/-- **The tasks of a job declare what they use.**  Every task of the pipeline, which may be a
    container itself, names a component that declares what the container uses, and this one names
    an executor whose strings contain it. -/
theorem job_declares {context : Context} {arguments : Keyed Value}
    {outputDirectory contextName : String} {job : Job}
    (hok : (compile context c arguments outputDirectory contextName).result = .ok job)
    (hdigests : (compile context c arguments outputDirectory contextName).SeparatesDigests) :
    ∃ s g order, context.settings = .ok s ∧ asGraph c = .ok g ∧
      g.order c.inputNames = .ok order ∧
      ∀ id task, g.task? id = some task → ∃ component container name made found launch,
        task.reference.spec = some component ∧ component.implementation = .container container ∧
        Keyed.find? (emittedNames s order) id = some name ∧
        Keyed.find? job.root.tasks name = some made ∧
        Keyed.find? job.components made.component = some found ∧
        Keyed.find? job.executors found.executor = some launch ∧
        DeclaresUses component task.arguments c.inputNames container found launch := by
  obtain ⟨s, g, order, d, hs, h⟩ := compile_spec hdigests (Recorded.yields_of_result hok)
  -- Each task of the order has been compiled, and the job holds what it was compiled to.
  refine ⟨s, g, order, hs, h.graph, h.ordered, fun id task htask => ?_⟩
  obtain ⟨component, line, name, hstep⟩ := h.stepAt htask
  obtain ⟨container, hcontainer, hline⟩ := hstep.commandLine
  obtain ⟨container', made, found, launch, hcontainer', hmade, hfound, hsame,
    hlaunch, hsame'⟩ :=
    hstep.runs
  obtain rfl := Implementation.container.inj (hcontainer.symm.trans hcontainer')
  exact ⟨component, container, name, made, found, launch, hstep.spec, hcontainer, hstep.named,
    hmade, hfound, hlaunch, declares_of_sameRecord hline hsame hsame'⟩

end PipelineCompiler.Vertex
