import PipelineCompiler.Proofs.Argo.CallGraph
import PipelineCompiler.Proofs.Argo.Kinds
import PipelineCompiler.Proofs.Argo.Shared

namespace PipelineCompiler.Argo

/-!
# Tasks of a workflow, one by one

The template of a graph has one task for each task of the graph.  All its other tasks convert, each
of them an artifact that is needed, and none what another one converts.

* `Draft.Thrifty`, `Run.Tasks.thrifty` — no task converts in vain or twice, as long as the tasks
  of a graph are compiled;
* `Workflow.Converts`, `NeedsConversion` — a task converts, and an input needs that;
* `Accounts` — the tasks of a template and those of a graph;
* `GraphMade.accounts`, `Accounts.of_outlines` — they match in what is made of a graph, and in
  every template that is shared with it;
* `ConversionsExact`, `compile_conversions` — they match in whole workflows, which have one
  template that converts at most.
-/

open Relation

variable {P : String → Prop} {s : Settings} {c : Component}

/-! ### What a run leaves -/

/-- Conversions have different records, and each of them is used by a task. -/
structure Draft.Thrifty (d : Draft) : Prop where
  keys : d.scope.tasks.KeysDistinct
  used : ∀ name ∈ d.scope.tasks.names.keptNames, ∃ entry ∈ d.scope.tasks.entries, ∃ input,
    (input, Reference.taskParameter name conversionOutput) ∈ entry.2.parameters

variable {d d' : Draft} {done : List String} {reference : Reference}

/-- A conversion keeps keys distinct, and its own name is the only new one. -/
theorem Run.Conversion.keeps {source : Reference} {name : String}
    (h : Run.Conversion P s d source name d') (hnamed : d.Named P done)
    (hkeys : d.scope.tasks.KeysDistinct) :
    d'.scope.tasks.KeysDistinct ∧ ∀ n ∈ d'.scope.tasks.names.keptNames,
      n ∈ d.scope.tasks.names.keptNames ∨ n = name := by
  obtain ⟨t, template, templates, tasks, -, -, htask, rfl⟩ := h.exists_interned
  refine ⟨htask.keysDistinct hnamed.tasks hkeys, fun n hn => ?_⟩
  change n ∈ tasks.names.keptNames at hn
  rcases (htask.stored hnamed.tasks).appended with ⟨-, heq⟩ | ⟨-, -, heq⟩
  · exact .inl (heq ▸ hn)
  · rw [heq] at hn
    simpa using hn

/-- The same for a binding: a new name is the one that is bound. -/
theorem Run.Value.keeps {argument : Argument} (h : Run.Value P s d argument reference d')
    (hnamed : d.Named P done) (hkeys : d.scope.tasks.KeysDistinct) :
    d'.scope.tasks.KeysDistinct ∧ ∀ n ∈ d'.scope.tasks.names.keptNames,
      n ∈ d.scope.tasks.names.keptNames ∨ reference = .taskParameter n conversionOutput := by
  cases h with
  | constant => exact ⟨hkeys, fun _ hn => .inl hn⟩
  | input => exact ⟨hkeys, fun _ hn => .inl hn⟩
  | convertedInput _ _ converted =>
    obtain ⟨hkeys', hnew⟩ := converted.keeps (hnamed.use _ _) hkeys
    exact ⟨hkeys', fun n hn => (hnew n hn).imp_right fun heq => by rw [heq]⟩
  | convertedOutput _ converted =>
    obtain ⟨hkeys', hnew⟩ := converted.keeps hnamed hkeys
    exact ⟨hkeys', fun n hn => (hnew n hn).imp_right fun heq => by rw [heq]⟩

/-- The same for the bindings of a task: a new name is one of those that are bound. -/
theorem Draft.BindsAll.keepsNames {b : Binder} {names : List String}
    {bindings : List (String × Reference)}
    (h : Draft.BindsAll (Run.Value P s) b d names bindings d')
    (hnamed : d.Named P done) (hkeys : d.scope.tasks.KeysDistinct) :
    d'.scope.tasks.KeysDistinct ∧ ∀ n ∈ d'.scope.tasks.names.keptNames,
      n ∈ d.scope.tasks.names.keptNames ∨
        ∃ input, (input, Reference.taskParameter n conversionOutput) ∈ bindings := by
  -- By induction on the bindings; each adds one name at most, and is bound to it.
  induction h with
  | nil => exact ⟨hkeys, fun _ hn => .inl hn⟩
  | cons _ first _ _ ih =>
    obtain ⟨hkeys₁, hfirst⟩ := first.keeps hnamed hkeys
    obtain ⟨hkeys₂, hothers⟩ := ih (first.named hnamed).1 hkeys₁
    refine ⟨hkeys₂, fun n hn => ?_⟩
    rcases hothers n hn with hn | ⟨input, hmem⟩
    · rcases hfirst n hn with hn | rfl
      · exact .inl hn
      · exact .inr ⟨_, List.mem_cons_self⟩
    · exact .inr ⟨input, List.mem_cons_of_mem _ hmem⟩

/-- A binding of a file leaves the tasks alone. -/
theorem Draft.BindsFile.tasks {argument : Argument} (h : d.BindsFile argument reference d') :
    d'.scope.tasks = d.scope.tasks := by
  cases h with
  | input | output => rfl

/-- **A task that is added** uses whatever was converted for it. -/
theorem Run.Task.thrifty {id : String} {b : Binder} {blueprint : Blueprint}
    (h : Run.Task P s id b blueprint d d') (hnamed : d.Named P done) (hid : id ∉ done)
    (hthrifty : d.Thrifty) : d'.Thrifty := by
  cases h with
  | @intro template name templates d₁ d₂ parameters artifacts interned values files named =>
    have hnamed₀ := hnamed.withTemplates (interned.stored hnamed.templates).sound
    obtain ⟨hnamed₁, hgrows₁⟩ := values.named (fun _ _ _ _ hbinds => hbinds.named) hnamed₀
    obtain ⟨hkeys, hnew⟩ := values.keepsNames hnamed₀ hthrifty.keys
    have hnamed₂ := (files.named (fun _ _ _ _ hbinds => hbinds.named) hnamed₁).1
    have htasks : d₂.scope.tasks = d₁.scope.tasks :=
      files.keeps (I := fun d₂ => d₂.scope.tasks = d₁.scope.tasks)
        (fun _ _ _ _ hbinds heq => hbinds.tasks.trans heq) rfl
    have hentries : (d₂.scope.tasks.define name (.step template parameters artifacts)).entries =
        d₁.scope.tasks.entries ++ [(name, .step template parameters artifacts)] := by
      rw [Registry.define_entries (hnamed₂.isNew named hid), htasks]
    refine ⟨?_, fun n hn => ?_⟩
    · show d₂.scope.tasks.KeysDistinct
      rw [htasks]
      exact hkeys
    · show ∃ entry ∈ (d₂.scope.tasks.define name _).entries, _
      rw [hentries]
      change n ∈ d₂.scope.tasks.names.keptNames at hn
      rw [htasks] at hn
      -- what was converted earlier is used by the tasks before
      rcases hnew n hn with hn | ⟨input, hmem⟩
      · obtain ⟨entry, hentry, hused⟩ := hthrifty.used n hn
        exact ⟨entry, List.mem_append_left _
          (hgrows₁.tasks.mem hnamed.tasks.nodup entry hentry), hused⟩
      · exact ⟨_, List.mem_append_right _ List.mem_cons_self, input, hmem⟩

/-- **No task converts in vain or twice**, as long as the tasks of a graph are compiled. -/
theorem Run.Tasks.thrifty {tasks : List (String × GraphTask)} {order : List String}
    (h : Run.Tasks P s tasks order d d') (hnodup : (done ++ order).Nodup) (hnamed : d.Named P done)
    (hthrifty : d.Thrifty) : d'.Thrifty := by
  induction h generalizing done with
  | nil => exact hthrifty
  | @cons d d₁ d₂ id rest task component kinds blueprint templates _ _ _ made added _ ih =>
    have hid : id ∉ done := fun hmem =>
      (List.nodup_append.mp hnodup).2.2 id hmem id List.mem_cons_self rfl
    obtain ⟨ht, -⟩ := blueprint_stores component _ _ _ _ _ _ hnamed.templates made
    have hnamed₀ := hnamed.withTemplates ht
    have hthrifty₀ : Draft.Thrifty { d with templates } := ⟨hthrifty.keys, hthrifty.used⟩
    exact ih (by simpa using hnodup) (added.named hnamed₀ hid).1
      (added.thrifty hnamed₀ hid hthrifty₀)

/-- Tasks that convert have different records, and the result of each is a parameter of a task. -/
structure Thrifty (tasks : Keyed DagTask) : Prop where
  once : ∀ name other template source source',
    Keyed.find? tasks name = some (.conversion template source) →
    Keyed.find? tasks other = some (.conversion template source') →
    source.text = source'.text → name = other
  used : ∀ name template source, Keyed.find? tasks name = some (.conversion template source) →
    ∃ user task input, Keyed.find? tasks user = some task ∧
      (input, Reference.taskParameter name conversionOutput) ∈ task.parameters

/-- Conversions of one text have one record. -/
theorem record_conversion {template : String} {source source' : Reference}
    (h : source.text = source'.text) : (DagTask.conversion template source).record =
      (DagTask.conversion template source').record := by
  simp [DagTask.record, DagTask.fields, DagTask.template, DagTask.arguments, DagTask.dependencies,
    DagTask.texts, DagTask.parameters, DagTask.artifacts, boundTo, h]

/-! ### What is left of a graph -/

section Graphs

variable {final : Keyed Template} {path order : List String} {around : Placed} {g : Graph}
  {blueprint : Blueprint}

/-- A task of the graph has a step under its name. -/
theorem GraphMade.step (h : GraphMade P s c final path around g order d blueprint)
    {id name : String}
    (hid : id ∈ order) (hname : Keyed.find? d.scope.taskNames id = some name) :
    ∃ template parameters artifacts,
      Keyed.find? d.scope.tasks.entries name = some (.step template parameters artifacts) := by
  obtain ⟨task, htask⟩ :=
    Keyed.exists_find?_of_mem_keys (((order_planned h.ordered).mem_iff id).mp hid)
  obtain ⟨component, inner, place, -, -, hadded⟩ := h.tasks id task htask
  obtain ⟨name', template, t, parameters, artifacts, hname', hstep, -⟩ := hadded.exists_step
  obtain rfl := Option.some.inj (hname.symm.trans hname')
  exact ⟨template, parameters, artifacts, hstep⟩

/-- A task of the template is that of a task of the graph, or a conversion. -/
theorem GraphMade.step_or_conversion (h : GraphMade P s c final path around g order d blueprint)
    {name : String} {made : DagTask} (hfind : Keyed.find? d.scope.tasks.entries name = some made) :
    (∃ id ∈ order, Keyed.find? d.scope.taskNames id = some name) ∨
      ∃ template source, made = .conversion template source := by
  rcases h.named.defined name (Keyed.mem_keys_of_find? hfind) with hkept | hid
  · obtain ⟨template, source, hconversion⟩ := h.named.converts name hkept
    exact .inr ⟨template, source, Option.some.inj (hfind.symm.trans hconversion)⟩
  · exact .inl hid

/-- **No task of the template of a graph converts in vain or twice.** -/
theorem GraphMade.thrifty (h : GraphMade P s c final path around g order d blueprint)
    (hmakes : Makes P s c final path around blueprint)
    (himpl : around.component.implementation = .graph g) : Thrifty d.scope.tasks.entries := by
  obtain ⟨kinds, templates, templates', -, ht, hyields, -⟩ := hmakes.exists_made
  obtain ⟨order', scope, d', horder, hscope, hrun, -, hmade⟩ := graph_run himpl hyields
  -- the draft of the run is the one that is left, as far as tasks are concerned
  obtain rfl := Except.ok.inj (h.ordered.symm.trans horder)
  have hnodup : ([] ++ order).Nodup := (order_planned horder).nodup
  have hstart : Draft.Named P { templates, scope } [] := Draft.named_start hscope ht
  have hempty : Draft.Thrifty { templates, scope } := by
    obtain ⟨names, a, hgiven, rfl⟩ := start_eq hscope
    obtain ⟨hreserved, -⟩ := reserveAll_spec (reserved_empty s) hgiven
    have hkeys : a.byKey = [] := hreserved.kept
    exact ⟨by rw [Registry.KeysDistinct, hkeys]; exact List.nodup_nil,
      fun name hname => absurd hname (hreserved.not_kept name)⟩
  obtain ⟨hnamed, hgrows⟩ :=
    hrun.named (fun _ _ inner _ => blueprint_stores inner) hnodup hstart
  have hthrifty := hrun.thrifty hnodup hstart hempty
  obtain ⟨outputs, -, htemplate⟩ := h.template
  obtain ⟨outputs', -, hmade⟩ := bind_eq_ok.mp hmade
  obtain rfl := pure_eq_ok.mp hmade
  obtain ⟨-, -, -, hentries⟩ := Template.dag.inj htemplate
  rw [← hentries]
  have hconversion : ∀ name template source,
      Keyed.find? d'.scope.tasks.entries name = some (.conversion template source) →
      name ∈ d'.scope.tasks.names.keptNames := by
    intro name template source hname
    refine (hnamed.defined name (Keyed.mem_keys_of_find? hname)).resolve_right ?_
    rintro ⟨id, hid, hreserved⟩
    rw [hgrows.taskNames, start_taskNames hscope, ← h.taskNames] at hreserved
    obtain ⟨template', parameters, artifacts, hstep⟩ := h.step hid hreserved
    rw [← hentries, hname] at hstep
    cases hstep
  refine ⟨fun name other template source source' hname hother htext => ?_,
    fun name template source hname => ?_⟩
  · exact hnamed.tasks.name_unique hthrifty.keys (hconversion _ _ _ hname)
      (hconversion _ _ _ hother) hname hother (record_conversion htext)
  · obtain ⟨entry, hentry, input, hmem⟩ := hthrifty.used name (hconversion _ _ _ hname)
    exact ⟨entry.1, entry.2, input, Keyed.find?_of_mem hnamed.tasks.nodup hentry, hmem⟩

end Graphs

/-! ### Tasks of a template and tasks of a graph -/

/-- A task of a workflow converts: its template is the one of conversions. -/
def Workflow.Converts (s : Settings) (w : Workflow) (task : DagTask) : Prop :=
  ∃ t, Keyed.find? w.templates task.template = some t ∧ conversionTemplate s = .ok t

/-- An input of a task in the graph at a path needs an artifact as a parameter: the command line of
    the task uses the input by value, its data is the output of a task, and its argument refers to
    the artifact with a text, where the tasks of the graph have some names. -/
def NeedsConversion (c : Component) (path : List String) (names : Keyed String)
    (id input text : String) : Prop :=
  ∃ here line source, c.at? (id :: path) = some here ∧
    here.component.commandLine here.arguments accessors = .ok line ∧
      input ∈ line.valueInputs ∧
    (∃ producer output, c.origin? (id :: path) input = some (.output producer output)) ∧
    sourceOf? names (here.component.argumentFor here.arguments input) = some source ∧
    source.text = text

/-- The tasks of a template match those of the graph at a path, which have some names. -/
structure Accounts (s : Settings) (c : Component) (w : Workflow) (path : List String) (g : Graph)
    (names : Keyed String) (t : Template) : Prop where
  /-- No name is there twice, and no two tasks of the graph have one name. -/
  nodup : (Keyed.keys t.tasks).Nodup
  distinct : ∀ id id' name, Keyed.find? names id = some name →
    Keyed.find? names id' = some name → id = id'
  /-- Every task of the graph has a task, and every task that does not convert is one of these. -/
  steps : ∀ id task, g.task? id = some task → ∃ name made,
    Keyed.find? names id = some name ∧
    Keyed.find? t.tasks name = some made ∧ ¬ w.Converts s made
  onlySteps : ∀ name made, Keyed.find? t.tasks name = some made → ¬ w.Converts s made →
    ∃ id task, g.task? id = some task ∧ Keyed.find? names id = some name
  /-- What an input needs is converted by exactly one task. -/
  needed : ∀ id input text, NeedsConversion c path names id input text → ∃! name, ∃ made,
    Keyed.find? t.tasks name = some made ∧ w.Converts s made ∧
    made.outline.artifacts = [(conversionInput, text)]
  /-- Every task that converts does so for an input that needs it and gets the result. -/
  used : ∀ name made, Keyed.find? t.tasks name = some made → w.Converts s made →
    ∃ id input text user step, NeedsConversion c path names id input text ∧
      made.outline.parameters = [] ∧ made.outline.artifacts = [(conversionInput, text)] ∧
      Keyed.find? names id = some user ∧ Keyed.find? t.tasks user = some step ∧
      (sanitizeIoName input, (Reference.taskParameter name conversionOutput).text) ∈
        step.outline.parameters

/-- Whether a task converts is read off its outline. -/
theorem Workflow.Converts.of_outline {w : Workflow} {task other : DagTask}
    (heq : other.outline = task.outline) (h : w.Converts s task) : w.Converts s other := by
  obtain ⟨t, ht, hconverts⟩ := h
  have htemplate : other.template = task.template := congrArg TaskOutline.template heq
  exact ⟨t, htemplate ▸ ht, hconverts⟩

/-- **Templates with the same outlines of tasks match the same graphs.** -/
theorem Accounts.of_outlines {w : Workflow} {path : List String} {g : Graph} {names : Keyed String}
    {t u : Template} (heq : outlines t.tasks = outlines u.tasks)
    (h : Accounts s c w path g names t) : Accounts s c w path g names u := by
  have hkeys : Keyed.keys u.tasks = Keyed.keys t.tasks := by
    have hmap := congrArg (List.map (·.1)) heq
    simpa [outlines, Keyed.keys, Function.comp_def] using hmap.symm
  -- Every clause speaks of tasks under names, and outlines keep names and kinds of tasks: each is
  -- carried over to the other template, look-up by look-up.
  refine ⟨hkeys ▸ h.nodup, h.distinct, fun id task htask => ?_,
    fun name made hmade hsteps => ?_,
    fun id input text hneeds => ?_, fun name made hmade hconverts => ?_⟩
  · obtain ⟨name, made, hname, hmade, hsteps⟩ := h.steps id task htask
    obtain ⟨other, hother, houtline⟩ := find?_of_outlines heq hmade
    exact ⟨name, other, hname, hother, fun hconverts =>
      hsteps (hconverts.of_outline houtline.symm)⟩
  · obtain ⟨other, hother, houtline⟩ := find?_of_outlines heq.symm hmade
    exact h.onlySteps name other hother fun hconverts => hsteps (hconverts.of_outline houtline.symm)
  · obtain ⟨name, ⟨made, hmade, hconverts, hartifacts⟩, hunique⟩ :=
      h.needed id input text hneeds
    obtain ⟨other, hother, houtline⟩ := find?_of_outlines heq hmade
    refine ⟨name, ⟨other, hother, hconverts.of_outline houtline,
      houtline ▸ hartifacts⟩, ?_⟩
    rintro name' ⟨made', hmade', hconverts', hartifacts'⟩
    obtain ⟨other', hother', houtline'⟩ := find?_of_outlines heq.symm hmade'
    exact hunique name' ⟨other', hother', hconverts'.of_outline houtline',
      houtline' ▸ hartifacts'⟩
  · obtain ⟨other, hother, houtline⟩ := find?_of_outlines heq.symm hmade
    obtain ⟨id, input, text, user, step, hneeds, hparameters, hartifacts, huser, hstep, hmem⟩ :=
      h.used name other hother (hconverts.of_outline houtline)
    obtain ⟨step', hstep', houtline'⟩ := find?_of_outlines heq hstep
    exact ⟨id, input, text, user, step', hneeds, houtline ▸ hparameters,
      houtline ▸ hartifacts, huser, hstep', houtline' ▸ hmem⟩

section Workflows

variable {path order : List String} {around : Placed} {g : Graph} {blueprint root : Blueprint}
  {w : Workflow}

/-- **There is one template that converts**, at most. -/
theorem PipelineMade.conversion_unique (hmade : PipelineMade P s c w root)
    {entry other : String × Template} (hentry : entry ∈ w.templates)
    (hother : other ∈ w.templates)
    (hconverts : conversionTemplate s = .ok entry.2)
    (hconverts' : conversionTemplate s = .ok other.2) : entry = other := by
  obtain ⟨text, htext⟩ := hmade.texts entry hentry
  have heq : entry.2 = other.2 := Except.ok.inj (hconverts.symm.trans hconverts')
  exact hmade.different entry hentry other hother ⟨text, htext, heq ▸ htext⟩

namespace GraphMade

/-- An id in the order of the graph is that of a task. -/
theorem exists_task (h : GraphMade P s c w.templates path around g order d blueprint) {id : String}
    (hid : id ∈ order) : ∃ task, g.task? id = some task :=
  Keyed.exists_find?_of_mem_keys (((order_planned h.ordered).mem_iff id).mp hid)

/-- A task of the graph does not convert. -/
theorem not_converts (h : GraphMade P s c w.templates path around g order d blueprint)
    (hsep : Separates P) {id : String} {task : GraphTask} (htask : g.task? id = some task) :
    ∃ name made, Keyed.find? d.scope.taskNames id = some name ∧
      Keyed.find? d.scope.tasks.entries name = some made ∧ ¬ w.Converts s made := by
  obtain ⟨component, name, made, t, inner, -, hname, hmade, hfind, hmakes, hsame⟩ :=
    h.task hsep htask
  refine ⟨name, made, hname, hmade, ?_⟩
  rintro ⟨t', ht', hconverts⟩
  obtain rfl := Option.some.inj (hfind.symm.trans ht')
  exact hmakes.not_conversion hconverts hsame

/-- A conversion converts. -/
theorem converts_of_conversion (h : GraphMade P s c w.templates path around g order d blueprint)
    (hsep : Separates P) (hmade : PipelineMade P s c w root) {name template : String}
    {source : Reference}
    (hfind : Keyed.find? d.scope.tasks.entries name = some (.conversion template source)) :
    w.Converts s (.conversion template source) := by
  obtain ⟨t, u, ht, hu, hsame⟩ :=
    h.tidy.conversions _ (Keyed.mem_of_find? hfind) template source rfl
  have hfound := h.within _ _ hu
  exact ⟨u, hfound,
    conversion_of_isMade ht (hmade.templates _ (Keyed.mem_of_find? hfound)) (hsame hsep)⟩

/-- Nothing else converts. -/
theorem conversion_of_converts (h : GraphMade P s c w.templates path around g order d blueprint)
    (hsep : Separates P) {name : String} {made : DagTask}
    (hfind : Keyed.find? d.scope.tasks.entries name = some made) (hconverts : w.Converts s made) :
    ∃ template source, made = .conversion template source := by
  refine (h.step_or_conversion hfind).resolve_left ?_
  rintro ⟨id, hid, hname⟩
  obtain ⟨task, htask⟩ := h.exists_task hid
  obtain ⟨name', made', hname', hmade', hsteps⟩ := h.not_converts hsep htask
  obtain rfl := Option.some.inj (hname.symm.trans hname')
  obtain rfl := Option.some.inj (hfind.symm.trans hmade')
  exact hsteps hconverts

/-- **What an input needs is converted**: the input is bound to a conversion of what its argument
    refers to. -/
theorem exists_conversion (h : GraphMade P s c w.templates path around g order d blueprint)
    (hsep : Separates P) (hhere : c.at? path = some around)
    (himpl : around.component.implementation = .graph g) {id input text : String}
    (hneeds : NeedsConversion c path d.scope.taskNames id input text) :
    ∃ name template found, found.text = text ∧
      Keyed.find? d.scope.tasks.entries name = some (.conversion template found) := by
  obtain ⟨here, line, source, hhere', hline, hinput, ⟨producer, output, horigin⟩,
    hsource, rfl⟩ :=
    hneeds
  -- Graphs have no command line, so it is a container that needs the input.
  cases hcontainer : here.component.implementation with
  | graph inner =>
    rw [Component.commandLine, hcontainer] at hline
    cases hline
  | container container =>
    obtain ⟨name, template, parameters, artifacts, -, -, line', hline', hvalues, -⟩ :=
      (h.served hhere himpl).containers id here container hhere' hcontainer
    obtain rfl := Except.ok.inj (hline.symm.trans hline')
    obtain ⟨binding, -, -, origin', horigin', hvalue⟩ := exists_right_of_mem hvalues hinput
    obtain rfl := Option.some.inj (horigin.symm.trans horigin')
    obtain ⟨conversion, result, heq⟩ := hvalue.converted.mpr ⟨producer, output, rfl⟩
    obtain ⟨-, template', found, source', hfound, hsource', htext⟩ :=
      hvalue.converts conversion result heq
    obtain rfl := Option.some.inj (hsource.symm.trans hsource')
    exact ⟨conversion, template', found, htext hsep, hfound⟩

/-- **Whatever is converted is needed**: the result is bound to an input of a container, which
    needs it. -/
theorem exists_user (h : GraphMade P s c w.templates path around g order d blueprint)
    (hsep : Separates P) (hmakes : Makes P s c w.templates path around blueprint)
    (himpl : around.component.implementation = .graph g) {name template : String}
    {source : Reference}
    (hfind : Keyed.find? d.scope.tasks.entries name = some (.conversion template source)) :
    ∃ id input user step, NeedsConversion c path d.scope.taskNames id input source.text ∧
      Keyed.find? d.scope.taskNames id = some user ∧
      Keyed.find? d.scope.tasks.entries user = some step ∧
      (sanitizeIoName input,
        Reference.taskParameter name conversionOutput) ∈ step.parameters := by
  have hserved := h.served hmakes.place himpl
  obtain ⟨user, step, input, huser, hmem⟩ :=
    (h.thrifty hmakes himpl).used name template source hfind
  -- a conversion has no parameters, so that the user is a task of the graph
  have hstep : ∃ id ∈ order, Keyed.find? d.scope.taskNames id = some user := by
    refine (h.step_or_conversion huser).resolve_right ?_
    rintro ⟨template', source', rfl⟩
    exact absurd hmem List.not_mem_nil
  obtain ⟨id, hid, hname⟩ := hstep
  obtain ⟨task, htask⟩ := h.exists_task hid
  obtain ⟨component, inner, place, hspec, hinner, -⟩ := h.tasks id task htask
  cases hcontainer : component.implementation with
  | graph inner =>
    obtain ⟨name', template', parameters, artifacts, hname', hstep, hnone⟩ :=
      hserved.graphs id _ inner hinner.place hcontainer
    obtain rfl := Option.some.inj (hname.symm.trans hname')
    obtain rfl := Option.some.inj (huser.symm.trans hstep)
    exact absurd rfl (hnone _ (List.mem_append_left _ hmem) name conversionOutput)
  | container container =>
    obtain ⟨name', template', parameters, artifacts, hname', hstep, line, hline, hvalues, -⟩ :=
      hserved.containers id _ container hinner.place hcontainer
    obtain rfl := Option.some.inj (hname.symm.trans hname')
    obtain rfl := Option.some.inj (huser.symm.trans hstep)
    obtain ⟨declared, hdeclared, rfl, origin, horigin, hvalue⟩ :=
      exists_left_of_mem hvalues hmem
    obtain ⟨producer, output, rfl⟩ := hvalue.converted.mp ⟨name, conversionOutput, rfl⟩
    obtain ⟨-, found, reference, source', hfound, hsource, htext⟩ :=
      hvalue.converts name conversionOutput rfl
    obtain ⟨rfl, rfl⟩ := DagTask.conversion.inj (Option.some.inj (hfind.symm.trans hfound))
    exact ⟨id, declared, user, _, ⟨_, line, source', hinner.place, hline, hdeclared,
      ⟨producer, output, horigin⟩, hsource, (htext hsep).symm⟩, hname, huser, hmem⟩

/-- **The tasks of what is made of a graph match those of the graph.** -/
theorem accounts (h : GraphMade P s c w.templates path around g order d blueprint)
    (hsep : Separates P) (hmade : PipelineMade P s c w root)
    (hmakes : Makes P s c w.templates path around blueprint)
    (himpl : around.component.implementation = .graph g) :
    Accounts s c w path g d.scope.taskNames blueprint.template := by
  obtain ⟨outputs, -, htemplate⟩ := h.template
  have htasks : blueprint.template.tasks = d.scope.tasks.entries := by
    rw [htemplate]
    rfl
  refine ⟨htasks ▸ h.named.tasks.nodup, h.named.distinct, ?_, ?_, ?_, ?_⟩
  · rw [htasks]
    exact fun id task htask => h.not_converts hsep htask
  · rw [htasks]
    intro name made hfind hsteps
    rcases h.step_or_conversion hfind with ⟨id, hid, hname⟩ | ⟨template, source, rfl⟩
    · obtain ⟨task, htask⟩ := h.exists_task hid
      exact ⟨id, task, htask, hname⟩
    · exact absurd (h.converts_of_conversion hsep hmade hfind) hsteps
  · rw [htasks]
    intro id input text hneeds
    obtain ⟨name, template, found, rfl, hfound⟩ :=
      h.exists_conversion hsep hmakes.place himpl hneeds
    have hconverts := h.converts_of_conversion hsep hmade hfound
    refine ⟨name, ⟨_, hfound, hconverts, rfl⟩, ?_⟩
    rintro other ⟨made, hother, hconverts', hartifacts⟩
    obtain ⟨template', source, rfl⟩ := h.conversion_of_converts hsep hother hconverts'
    -- both tasks have the only template that converts
    obtain ⟨t, ht, hok⟩ := hconverts
    obtain ⟨t', ht', hok'⟩ := hconverts'
    have heq := hmade.conversion_unique (Keyed.mem_of_find? ht) (Keyed.mem_of_find? ht') hok hok'
    obtain rfl : template = template' := congrArg Prod.fst heq
    have htext : source.text = found.text := by
      simpa [DagTask.outline, DagTask.artifacts, bindingTexts] using hartifacts
    exact (h.thrifty hmakes himpl).once _ _ _ _ _ hother hfound htext
  · rw [htasks]
    intro name made hfind hconverts
    obtain ⟨template, source, rfl⟩ := h.conversion_of_converts hsep hfind hconverts
    obtain ⟨id, input, user, step, hneeds, hname, hstep, hmem⟩ :=
      h.exists_user hsep hmakes himpl hfind
    exact ⟨id, input, source.text, user, step, hneeds, rfl, rfl, hname, hstep,
      List.mem_map_of_mem (f := fun binding : String × Reference =>
        (binding.1, binding.2.text)) hmem⟩

end GraphMade

/-! ### Whole workflows -/

/-- The tasks of a workflow match those of the pipeline. -/
structure ConversionsExact (s : Settings) (c : Component) (w : Workflow) : Prop where
  /-- Every graph has a template, whose tasks match those of the graph. -/
  graphs : ∀ path around g, c.at? path = some around →
    around.component.implementation = .graph g → ∃ site t names,
    emittedPath? s c path = some site ∧ w.templateAt? site = some t ∧
    emittedTasks? s around.component = some names ∧ Accounts s c w path g names t
  /-- No other template has tasks. -/
  nowhereElse : ∀ name parameters artifacts outputs tasks,
    (name, Template.dag parameters artifacts outputs tasks) ∈ w.templates →
    ∃ path around g names, c.at? path = some around ∧
      around.component.implementation = .graph g ∧
      emittedTasks? s around.component = some names ∧
      Accounts s c w path g names (.dag parameters artifacts outputs tasks)
  /-- At most one template converts, and it is there if and only if some task converts. -/
  unique : ∀ entry ∈ w.templates, ∀ other ∈ w.templates,
    conversionTemplate s = .ok entry.2 →
    conversionTemplate s = .ok other.2 → entry = other
  present : (∃ entry ∈ w.templates, conversionTemplate s = .ok entry.2) ↔
    ∃ entry ∈ w.templates, ∃ task ∈ entry.2.tasks, w.Converts s task.2

/-- A template with tasks is made of a graph. -/
theorem Makes.exists_graph {final : Keyed Template} (h : Makes P s c final path around blueprint)
    {parameters artifacts : List String} {outputs : List (String × Reference)}
    {tasks : Keyed DagTask} (heq : blueprint.template = .dag parameters artifacts outputs tasks) :
    ∃ g, around.component.implementation = .graph g := by
  cases himpl : around.component.implementation with
  | graph g => exact ⟨g, rfl⟩
  | container container =>
    obtain ⟨_, _, _, -, -, hyields, -⟩ := h.exists_made
    obtain ⟨line, -, -, -, houtline⟩ := containerBlueprint_spec (container_runs himpl hyields).2
    rw [heq] at houtline
    cases houtline

/-- **The tasks of a workflow match those of the pipeline**, if its templates are reached from the
    entry point. -/
theorem PipelineMade.conversionsExact (h : PipelineMade P s c w root) (hsep : Separates P)
    (hreached : ∀ name ∈ Keyed.keys w.templates,
      ReflTransGen (Calls w.templates) w.entrypoint name) : ConversionsExact s c w where
  graphs := by
    intro path around g hhere himpl
    obtain ⟨site, t, blueprint, hsite, ht, hmakes, hsame⟩ := h.templateAt hsep hhere
    obtain ⟨order, d, hgraph⟩ := hmakes.graph himpl
    exact ⟨site, t, _, hsite, ht, hgraph.emitted himpl,
      (hgraph.accounts hsep h hmakes himpl).of_outlines (outlines_of_sameRecord hsame).symm⟩
  nowhereElse := by
    intro name parameters artifacts outputs tasks hmem
    rcases h.templates _ hmem with hconversion | ⟨path, around, blueprint, hmakes, heq⟩
    · have houtline := conversionTemplate_outline hconversion
      cases houtline
    · obtain ⟨g, himpl⟩ := hmakes.exists_graph heq.symm
      obtain ⟨order, d, hgraph⟩ := hmakes.graph himpl
      have haccounts := hgraph.accounts hsep h hmakes himpl
      rw [← heq] at haccounts
      exact ⟨path, around, g, _, hmakes.place, himpl, hgraph.emitted himpl, haccounts⟩
  unique := fun _ hentry _ hother hconverts hconverts' =>
    h.conversion_unique hentry hother hconverts hconverts'
  present := by
    constructor
    · rintro ⟨entry, hentry, hconverts⟩
      have hfind : Keyed.find? w.templates entry.1 = some entry.2 :=
        Keyed.find?_of_mem h.nodup hentry
      -- the template is called, because it is not the entry point
      rcases ReflTransGen.cases_tail
        (hreached entry.1 (List.mem_map_of_mem (f := (·.1)) hentry))
          with heq | ⟨caller, -, hcall⟩
      · obtain ⟨t, ht, hsame⟩ := h.entrypoint
        rw [← heq, hfind] at ht
        obtain rfl := Option.some.inj ht
        exact absurd (hsame hsep) (h.makes.not_conversion hconverts)
      · obtain ⟨t, ht, hmem⟩ := hcall
        obtain ⟨task, htask, heq⟩ := List.mem_map.mp hmem
        exact ⟨_, Keyed.mem_of_find? ht, task, htask, entry.2, heq ▸ hfind, hconverts⟩
    · rintro ⟨entry, -, task, -, t, ht, hconverts⟩
      exact ⟨_, Keyed.mem_of_find? ht, hconverts⟩

/-- **All templates are reached** from the entry point. -/
theorem compile_reached {context : Context} {arguments : Keyed Value}
    (hsep : Separates P) (hyields : (compile context c arguments).Yields P w) :
    ∀ name ∈ Keyed.keys w.templates,
      ReflTransGen (Calls w.templates) w.entrypoint name := by
  obtain ⟨s, blueprint, templates, templates', -, hblueprint, -, hshared, hentries, -⟩ :=
    compile_shared hsep hyields
  have hcovers := blueprint_covers hsep c _ _ _ _ _ _ (templatesSound_empty s) hblueprint
  have hstart : Covers [] templates.entries (blueprint.template.callees ++ []) := by
    rwa [List.append_nil]
  have hall : Covers [] templates'.entries [w.entrypoint] := hstart.share hshared
  intro name hname
  rw [← hentries] at hname ⊢
  rcases hall name hname with hold | ⟨caller, hcaller, hreach⟩
  · exact absurd hold List.not_mem_nil
  · rwa [List.mem_singleton.mp hcaller] at hreach

/-- **The tasks of a workflow match those of the pipeline**, whatever the pipeline is. -/
theorem compile_conversions {context : Context} {arguments : Keyed Value}
    (hok : (compile context c arguments).result = .ok w)
    (hdigests : (compile context c arguments).SeparatesDigests) :
    ∃ s, context.settings = .ok s ∧ ConversionsExact s c w := by
  have hyields := Recorded.yields_of_result hok
  obtain ⟨s, root, hs, hmade⟩ := compile_made hyields
  exact ⟨s, hs, hmade.conversionsExact hdigests (compile_reached hdigests hyields)⟩

end Workflows

end PipelineCompiler.Argo
