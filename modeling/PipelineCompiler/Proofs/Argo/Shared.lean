import PipelineCompiler.Proofs.Argo.Kinds
import PipelineCompiler.Proofs.Launch
import PipelineCompiler.Proofs.Naming.Registry

namespace PipelineCompiler.Argo

/-!
# Templates are shared exactly when they are equal

* `textual_container`, `textual_dag` — the records of templates are made of texts;
* `Workflow.templateAt?` — the template of the task at a path;
* `PipelineMade.templateAt`, `PipelineMade.origin_of_templateAt` — the tasks of a workflow are
  those of the pipeline and conversions, and the template of each is the one that was asked for;
* `SharedExactly`, `compile_shared_exactly` — no two templates are equal, and every task has a
  template that is equal to the one that is made for it.
-/

variable {P : String → Prop} {s : Settings} {c : Component}

/-! ### Records are made of texts -/

/-- Something that has only a name. -/
theorem textual_named (name : String) : (named name).Textual :=
  textual_of_nodup (List.nodup_singleton _) fun field hfield => by
    obtain rfl := List.mem_singleton.mp hfield
    exact .str name

/-- Two texts under different names. -/
theorem textual_pair {k l v w : String} (h : k ≠ l) :
    (Value.ofFields [(k, .str v), (l, .str w)]).Textual := by
  refine textual_of_nodup (by simp [Keyed.keys, h]) fun field hfield => ?_
  simp only [List.mem_cons, List.not_mem_nil, or_false] at hfield
  rcases hfield with rfl | rfl
  · exact .str v
  · exact .str w

/-- An artifact with its file. -/
theorem textual_file (f : ArtifactFile) : f.toValue.Textual := textual_pair (by decide)

/-- A binding. -/
theorem textual_boundTo {field : String} (hfield : "name" ≠ field)
    (binding : String × Reference) :
    (boundTo field binding).Textual := textual_pair hfield

/-- The arguments of a task. -/
theorem textual_arguments (task : DagTask) : (Value.ofFields task.arguments).Textual := by
  have hvalue : "name" ≠ "value" := by decide
  have hfrom : "name" ≠ "from" := by decide
  cases task with
  | step template parameters artifacts =>
    -- Names of fields are different, and what stands under them is made of texts.
    refine textual_of_nodup (by simp [DagTask.arguments, listing, Keyed.keys])
      fun field hfield => ?_
    simp only [DagTask.arguments, listing, List.mem_cons, List.not_mem_nil, or_false] at hfield
    rcases hfield with rfl | rfl
    · exact textual_map fun binding _ => textual_boundTo hvalue binding
    · exact textual_map fun binding _ => textual_boundTo hfrom binding
  | conversion template source =>
    refine textual_of_nodup (List.nodup_singleton _) fun field hfield => ?_
    obtain rfl := List.mem_singleton.mp hfield
    exact .list fun v hv => List.mem_singleton.mp hv ▸ textual_boundTo hfrom _

/-- A task with its name. -/
theorem textual_task (entry : String × DagTask) : (DagTask.toValue entry).Textual := by
  refine textual_of_nodup ?_ fun field hfield => ?_
  · unfold DagTask.fields
    split
    · simp [Keyed.keys]
    · simp [Keyed.keys]
  · simp only [DagTask.fields, List.mem_cons, List.mem_append, List.not_mem_nil,
      or_false] at hfield
    rcases hfield with rfl | (rfl | rfl) | hfield
    · exact .str _
    · exact .str _
    · exact textual_arguments entry.2
    -- Dependencies are a field of their own when there are any.
    · split at hfield
      · cases hfield
      · obtain rfl := List.mem_singleton.mp hfield
        exact textual_ofTexts _

/-- A container with its name. -/
theorem textual_containerDocument {l : Launch} (himage : l.image.Textual) :
    (containerDocument l).Textual := by
  refine textual_of_nodup ?_ fun field hfield => ?_
  · have hsublist := l.keys_fields.cons_cons "name"
    exact hsublist.nodup (by decide)
  · rcases List.mem_cons.mp hfield with rfl | hfield
    · exact .str _
    · exact l.textual himage field hfield

/-- The record of a template, when its parts are made of texts. -/
theorem textual_record {t : Template} (hinputs : (Value.ofFields t.inputs).Textual)
    (houtputs : (Value.ofFields t.outputs).Textual) (hbody : t.body.2.Textual) :
    t.record.Textual := by
  refine textual_of_nodup ?_ fun field hfield => ?_
  · cases t with
    | container | dag | conversion => simp [Template.fields, Template.body, Keyed.keys]
  · simp only [Template.fields, List.mem_cons, List.not_mem_nil, or_false] at hfield
    rcases hfield with rfl | rfl | rfl
    · exact hinputs
    · exact houtputs
    · exact hbody

/-- Lists of documents under the names of inputs or outputs. -/
theorem textual_listings {fields : Keyed Value}
    (hkeys : (Keyed.keys fields).Sublist ["parameters", "artifacts"])
    (h : ∀ field ∈ fields, field.2.Textual) : (Value.ofFields fields).Textual :=
  textual_of_nodup (hkeys.nodup (by decide)) h

/-- **The record of a container is made of texts**, its image provided. -/
theorem textual_container {parameters : List String} {artifacts outputs : List ArtifactFile}
    {launch : Launch} (himage : launch.image.Textual) :
    (Template.container parameters artifacts outputs launch).record.Textual := by
  refine textual_record (textual_listings (by simp [Template.inputs, listing, Keyed.keys])
    fun field hfield => ?_) (textual_listings (by simp [Template.outputs, listing, Keyed.keys])
    fun field hfield => ?_) (textual_containerDocument himage)
  · simp only [Template.inputs, listing, List.mem_cons, List.not_mem_nil, or_false] at hfield
    rcases hfield with rfl | rfl
    · exact textual_map fun name _ => textual_named name
    · exact textual_map fun f _ => textual_file f
  · obtain rfl := List.mem_singleton.mp hfield
    exact textual_map fun f _ => textual_file f

/-- **The record of a graph is made of texts.** -/
theorem textual_dag {parameters artifacts : List String} {outputs : List (String × Reference)}
    {tasks : Keyed DagTask} :
    (Template.dag parameters artifacts outputs tasks).record.Textual := by
  refine textual_record (textual_listings (by simp [Template.inputs, listing, Keyed.keys])
    fun field hfield => ?_) (textual_listings (by simp [Template.outputs, listing, Keyed.keys])
    fun field hfield => ?_) (textual_of_nodup (List.nodup_singleton _) fun field hfield => ?_)
  · simp only [Template.inputs, listing, List.mem_cons, List.not_mem_nil, or_false] at hfield
    rcases hfield with rfl | rfl
    · exact textual_map fun name _ => textual_named name
    · exact textual_map fun name _ => textual_named name
  · obtain rfl := List.mem_singleton.mp hfield
    exact textual_map fun binding _ => textual_boundTo (by decide) binding
  · obtain rfl := List.mem_singleton.mp hfield
    exact textual_map fun entry _ => textual_task entry

/-- The record of a template says nothing about its name. -/
theorem unnamed_template : Unnamed Template.record :=
  fun t => ⟨t.fields, rfl, templateFields_unnamed t⟩

/-! ### What is made is made of texts -/

section Made

variable {final : Keyed Template} {path : List String} {here : Placed} {blueprint : Blueprint}

/-- **The record of what is made of a component is made of texts.** -/
theorem Makes.textual (h : Makes P s c final path here blueprint) :
    blueprint.template.record.Textual := by
  cases himpl : here.component.implementation with
  | container container =>
    obtain ⟨_, _, _, -, -, hyields, -⟩ := h.exists_made
    obtain ⟨line, -, hmade⟩ := bind_eq_ok.mp (container_runs himpl hyields).2
    obtain ⟨artifacts, -, hmade⟩ := bind_eq_ok.mp hmade
    obtain ⟨outputs, -, hmade⟩ := bind_eq_ok.mp hmade
    obtain rfl := pure_eq_ok.mp hmade
    exact textual_container (.str container.image)
  | graph g =>
    obtain ⟨order, d, hmade⟩ := h.graph himpl
    obtain ⟨outputs, -, htemplate⟩ := hmade.template
    rw [htemplate]
    exact textual_dag

/-- What is made of a component does not convert. -/
theorem Makes.not_conversion (h : Makes P s c final path here blueprint) {t : Template}
    (ht : conversionTemplate s = .ok t) : ¬ SameRecord Template.record t blueprint.template := by
  intro hsame
  -- Records that are the same have one outline, and that of a conversion is neither of these.
  have houtline := (outline_of_sameRecord hsame).symm.trans (conversionTemplate_outline ht)
  cases himpl : here.component.implementation with
  | container container =>
    obtain ⟨_, _, _, -, -, hyields, -⟩ := h.exists_made
    obtain ⟨line, -, -, -, hcontainer⟩ :=
      containerBlueprint_spec (container_runs himpl hyields).2
    cases hcontainer.symm.trans houtline
  | graph g =>
    obtain ⟨order, d, hmade⟩ := h.graph himpl
    obtain ⟨outputs, -, htemplate⟩ := hmade.template
    rw [htemplate] at houtline
    cases houtline

/-- **A template that is found for a component is equal to what is made of it.** -/
theorem Makes.same (h : Makes P s c final path here blueprint) {t : Template}
    (hmade : t.IsMade P s c final) (hsame : SameRecord Template.record t blueprint.template) :
    t.record.Same blueprint.template.record := by
  refine hsame.same unnamed_template ?_ h.textual
  rcases hmade with hconversion | ⟨path', here', blueprint', hmakes, rfl⟩
  · exact absurd hsame (h.not_conversion hconversion)
  · exact hmakes.textual

/-- A template that is found for a conversion converts. -/
theorem conversion_of_isMade {t u : Template} (ht : conversionTemplate s = .ok t)
    (hmade : u.IsMade P s c final) (hsame : SameRecord Template.record u t) :
    conversionTemplate s = .ok u := by
  rcases hmade with hconversion | ⟨path', here', blueprint', hmakes, rfl⟩
  · exact hconversion
  · exact absurd hsame.symm (hmakes.not_conversion ht)

end Made

/-! ### Tasks of graphs -/

section Graphs

variable {final : Keyed Template} {path order : List String} {around : Placed} {g : Graph}
  {d : Draft} {blueprint : Blueprint}

/-- A task under a name of the graph, and the template that was found for it. -/
theorem GraphMade.task (h : GraphMade P s c final path around g order d blueprint)
    (hsep : Separates P) {id : String} {task : GraphTask} (htask : g.task? id = some task) :
    ∃ component name made t inner, task.reference.spec = some component ∧
      Keyed.find? d.scope.taskNames id = some name ∧
      Keyed.find? d.scope.tasks.entries name = some made ∧
      Keyed.find? final made.template = some t ∧
      Makes P s c final (id :: path) { component, arguments := task.arguments } inner ∧
      SameRecord Template.record t inner.template := by
  obtain ⟨component, inner, place, hspec, hmakes, hadded⟩ := h.tasks id task htask
  obtain ⟨name, template, t, parameters, artifacts, hname, hstep, hfind, hsame, -⟩ :=
    hadded.exists_step
  exact ⟨component, name, _, t, inner, hspec, hname, hstep, h.within _ _ hfind, hmakes,
    hsame hsep⟩

/-- **Every task of a graph** is one of the pipeline, or converts. -/
theorem GraphMade.task_cases (h : GraphMade P s c final path around g order d blueprint)
    (hsep : Separates P) {name : String} {made : DagTask}
    (hfind : Keyed.find? d.scope.tasks.entries name = some made) :
    (∃ id task, g.task? id = some task ∧ Keyed.find? d.scope.taskNames id = some name) ∨
      ∃ t u, conversionTemplate s = .ok t ∧ Keyed.find? final made.template = some u ∧
        SameRecord Template.record u t := by
  -- The name was kept for a conversion, or reserved for a task of the graph.
  rcases h.named.defined name (Keyed.mem_keys_of_find? hfind) with hkept | ⟨id, hid, hname⟩
  · obtain ⟨template, source, hconversion⟩ := h.named.converts name hkept
    obtain rfl := Option.some.inj (hfind.symm.trans hconversion)
    obtain ⟨t, u, ht, hu, hsame⟩ :=
      h.tidy.conversions _ (Keyed.mem_of_find? hfind) template source rfl
    exact .inr ⟨t, u, ht, h.within _ _ hu, hsame hsep⟩
  · obtain ⟨task, htask⟩ :=
      Keyed.exists_find?_of_mem_keys (((order_planned h.ordered).mem_iff id).mp hid)
    exact .inl ⟨id, task, htask, hname⟩

end Graphs

/-! ### Whole workflows -/

/-- The template of the task at a path, whose name comes first. -/
def Workflow.templateAt? (w : Workflow) : List String → Option Template
  | [] => Keyed.find? w.templates w.entrypoint
  | name :: outer => do
    let around ← w.templateAt? outer
    let task ← Keyed.find? around.tasks name
    Keyed.find? w.templates task.template

/-- The template of a task is found by that of the graph around. -/
theorem templateAt?_cons {w : Workflow} {name : String} {outer : List String} {t : Template} :
    w.templateAt? (name :: outer) = some t ↔ ∃ around task,
      w.templateAt? outer = some around ∧
      Keyed.find? around.tasks name = some task ∧
      Keyed.find? w.templates task.template = some t := by
  rw [Workflow.templateAt?]
  simp only [Option.bind_eq_bind, Option.bind_eq_some_iff]
  constructor
  · rintro ⟨around, haround, task, htask, ht⟩
    exact ⟨around, task, haround, htask, ht⟩
  · rintro ⟨around, task, haround, htask, ht⟩
    exact ⟨around, haround, task, htask, ht⟩

/-- The template of a task is one of the workflow. -/
theorem mem_of_templateAt? {w : Workflow} {site : List String} {t : Template}
    (ht : w.templateAt? site = some t) : ∃ name, (name, t) ∈ w.templates := by
  cases site with
  | nil => exact ⟨_, Keyed.mem_of_find? ht⟩
  | cons name outer =>
    obtain ⟨around, task, -, -, ht⟩ := templateAt?_cons.mp ht
    exact ⟨_, Keyed.mem_of_find? ht⟩

/-- A template without tasks is the end of a path. -/
theorem not_find?_task {t : Template} (h : t.outline.tasks = []) {name : String} {task : DagTask} :
    Keyed.find? t.tasks name ≠ some task := by
  intro hfind
  have houtlines : outlines t.tasks = outlines [] := (outlines_tasks t).trans h
  obtain ⟨_, hnone, -⟩ := find?_of_outlines houtlines hfind
  cases hnone

namespace PipelineMade

variable {w : Workflow} {root : Blueprint}

/-- **Everything in the pipeline has a template in the workflow**, under its own name: the one that
    was asked for. -/
theorem templateAt (h : PipelineMade P s c w root) (hsep : Separates P) {path : List String}
    {here : Placed} (hhere : c.at? path = some here) :
    ∃ site t blueprint, emittedPath? s c path = some site ∧ w.templateAt? site = some t ∧
      Makes P s c w.templates path here blueprint ∧
      SameRecord Template.record t blueprint.template := by
  induction path generalizing here with
  | nil =>
    obtain rfl := Option.some.inj hhere
    obtain ⟨t, ht, hsame⟩ := h.entrypoint
    exact ⟨[], t, root, rfl, ht, h.makes, hsame hsep⟩
  | cons id outer ih =>
    obtain ⟨around, g, task, haround, hg, htask, hspec, harguments⟩ := at?_cons.mp hhere
    obtain ⟨site, t, blueprint, hsite, ht, hmakes, hsame⟩ := ih haround
    obtain ⟨order, d, hgraph⟩ := hmakes.graph hg
    obtain ⟨component, name, made, u, inner, hspec', hname, hmade, hu, hinner, hsame'⟩ :=
      hgraph.task hsep htask
    obtain rfl := Option.some.inj (hspec.symm.trans hspec')
    obtain ⟨outputs, -, htemplate⟩ := hgraph.template
    -- the tasks of the template that was found are those of the template that was asked for
    have houtlines := outlines_of_sameRecord hsame
    rw [htemplate] at houtlines
    obtain ⟨found, hfound, heq⟩ := find?_of_outlines houtlines.symm hmade
    have hcalled : found.template = made.template := congrArg TaskOutline.template heq
    rw [← harguments] at hinner
    exact ⟨name :: site, u, inner,
      emittedPath?_cons.mpr ⟨around, _, name, site, haround, hgraph.emitted hg,
        hname, hsite, rfl⟩,
      templateAt?_cons.mpr ⟨t, found, ht, hfound, hcalled ▸ hu⟩, hinner, hsame'⟩

/-- **Every task of the workflow** is one of the pipeline, or converts. -/
theorem origin_of_templateAt (h : PipelineMade P s c w root) (hsep : Separates P)
    {site : List String} {t : Template} (ht : w.templateAt? site = some t) :
    (∃ path here, c.at? path = some here ∧ emittedPath? s c path = some site) ∨
      conversionTemplate s = .ok t := by
  induction site generalizing t with
  | nil => exact .inl ⟨[], _, rfl, rfl⟩
  | cons name outer ih =>
    obtain ⟨around, made, haround, hmade, hu⟩ := templateAt?_cons.mp ht
    rcases ih haround with ⟨path, here, hhere, hsite⟩ | hconversion
    · obtain ⟨site, found, blueprint, hsite', hfound, hmakes, hsame⟩ := h.templateAt hsep hhere
      obtain rfl := Option.some.inj (hsite.symm.trans hsite')
      obtain rfl := Option.some.inj (haround.symm.trans hfound)
      cases himpl : here.component.implementation with
      -- a template that is shared with that of a container has no tasks
      | container container =>
        obtain ⟨_, _, _, -, -, hyields, -⟩ := hmakes.exists_made
        obtain ⟨_, -, -, -, houtline⟩ :=
          containerBlueprint_spec (container_runs himpl hyields).2
        rw [← outline_of_sameRecord hsame] at houtline
        exact absurd hmade (not_find?_task (by rw [houtline]; rfl))
      | graph g =>
        obtain ⟨order, d, hgraph⟩ := hmakes.graph himpl
        obtain ⟨outputs, -, htemplate⟩ := hgraph.template
        have houtlines := outlines_of_sameRecord hsame
        rw [htemplate] at houtlines
        obtain ⟨asked, hasked, heq⟩ := find?_of_outlines houtlines hmade
        have hcalled : asked.template = made.template := congrArg TaskOutline.template heq
        rcases hgraph.task_cases hsep hasked with ⟨id, task, htask, hname⟩ | ⟨v, u,
          hv, hu', hsame'⟩
        · obtain ⟨component, -, -, -, -, hspec, -⟩ := hgraph.task hsep htask
          exact .inl ⟨id :: path, { component, arguments := task.arguments },
            at?_cons.mpr ⟨here, g, task, hhere, himpl, htask, hspec, rfl⟩,
            emittedPath?_cons.mpr ⟨here, _, name, outer, hhere, hgraph.emitted himpl, hname,
              hsite, rfl⟩⟩
        · rw [hcalled, hu] at hu'
          obtain rfl := Option.some.inj hu'
          exact .inr (conversion_of_isMade hv (h.templates _ (Keyed.mem_of_find? hu)) hsame')
    · exact absurd hmade (not_find?_task (by rw [conversionTemplate_outline hconversion]; rfl))

end PipelineMade

/-- Templates are shared exactly when they are equal. -/
structure SharedExactly (P : String → Prop) (s : Settings) (c : Component) (w : Workflow) :
    Prop where
  /-- No two templates are equal, their names aside. -/
  different : w.templates.Pairwise fun entry other => ¬ entry.2.record.Same other.2.record
  /-- Everything in the pipeline has a template that is equal to the one made for it. -/
  equal : ∀ path here, c.at? path = some here → ∃ site t blueprint,
    emittedPath? s c path = some site ∧ w.templateAt? site = some t ∧
    Makes P s c w.templates path here blueprint ∧
    t.record.Same blueprint.template.record
  /-- There are no other tasks than those of the pipeline, apart from conversions. -/
  tasks : ∀ site t, w.templateAt? site = some t →
    (∃ path here, c.at? path = some here ∧ emittedPath? s c path = some site) ∨
      conversionTemplate s = .ok t
  /-- Every template is that of a task, or converts. -/
  reached : ∀ entry ∈ w.templates,
    (∃ site, w.templateAt? site = some entry.2) ∨ conversionTemplate s = .ok entry.2

/-- What is made of a pipeline is shared exactly. -/
theorem PipelineMade.sharedExactly {w : Workflow} {root : Blueprint}
    (h : PipelineMade P s c w root) (hsep : Separates P) : SharedExactly P s c w where
  different := by
    refine h.nodup.of_map.pairwise_of_forall_ne fun entry hentry other hother hne hsame => hne ?_
    obtain ⟨text, htext⟩ := h.texts entry hentry
    obtain ⟨text', htext'⟩ := h.texts other hother
    exact h.different entry hentry other hother
      (sameRecord_of_same unnamed_template htext htext' hsame)
  equal := by
    intro path here hhere
    obtain ⟨site, t, blueprint, hsite, ht, hmakes, hsame⟩ := h.templateAt hsep hhere
    obtain ⟨name, hmem⟩ := mem_of_templateAt? ht
    exact ⟨site, t, blueprint, hsite, ht, hmakes, hmakes.same (h.templates _ hmem) hsame⟩
  tasks := fun site t ht => h.origin_of_templateAt hsep ht
  reached := by
    intro entry hentry
    -- Everything but the template of conversions comes from a place, and there is one template for
    -- its record.
    rcases h.templates entry hentry with hconversion | ⟨path, here, blueprint, hmakes, heq⟩
    · exact .inr hconversion
    · obtain ⟨site, t, blueprint', -, ht, hmakes', hsame⟩ := h.templateAt hsep hmakes.place
      obtain rfl := hmakes.unique hmakes'
      rw [← heq] at hsame
      obtain ⟨name, hmem⟩ := mem_of_templateAt? ht
      obtain rfl := h.different _ hmem _ hentry hsame
      exact .inl ⟨site, ht⟩

/-- **Templates are shared exactly when they are equal**, whatever the pipeline is. -/
theorem compile_shared_exactly {context : Context} {arguments : Keyed Value} {w : Workflow}
    (hok : (compile context c arguments).result = .ok w)
    (hdigests : (compile context c arguments).SeparatesDigests) :
    ∃ s, context.settings = .ok s ∧
      SharedExactly (· ∈ (compile context c arguments).digested) s c w := by
  obtain ⟨s, root, hs, hmade⟩ := compile_made (Recorded.yields_of_result hok)
  exact ⟨s, hs, hmade.sharedExactly hdigests⟩

end PipelineCompiler.Argo
