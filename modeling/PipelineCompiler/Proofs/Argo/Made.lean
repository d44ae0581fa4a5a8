import PipelineCompiler.Proofs.Argo.Visits

namespace PipelineCompiler.Argo

/-!
# What a compilation leaves at each task

All of this holds whether digests tell texts apart or not; what holds only if they do is said so.

* `Serves`, `Added` — what the binding of an input has to do with its argument, and what a task
  has left in the graph around it;
* `Draft.Tidy` — inputs that were used, and conversions, are as they have to be;
* `Makes`, `GraphMade` — a blueprint is made of what stands at a path; what is left of a graph;
* `Makes.graph` — a graph is made task by task;
* `Interns` — templates come from conversions and from these blueprints, and from nowhere else;
* `PipelineMade`, `compile_made` — what is left of the compilation of a pipeline, which made
  something of everything in it.
-/

variable {P : String → Prop} {s : Settings} {c : Component}

/-! ### Bindings -/

/-- What an argument refers to as an artifact, where tasks have some names. -/
def sourceOf? (taskNames : Keyed String) : Argument → Option Reference
  | .literal _ => none
  | .graphInput input _ => some (.artifact (sanitizeIoName input))
  | .taskOutput source => (Keyed.find? taskNames source.task).map fun task =>
    .taskArtifact task (sanitizeIoName source.output)

/-- What the binding of an input that is used as a parameter has to do with its argument: it is the
    constant, the input of the graph, or a conversion of what the argument refers to. -/
inductive Serves (P : String → Prop) (d : Draft) : Argument → Reference → Prop
  | constant (text : String) : Serves P d (.literal text) (.constant text)
  | input {name : String} {kind : InputKind} (type : Value)
      (found : Keyed.find? d.scope.kinds name = some kind) (kindNe : kind ≠ .artifact) :
      Serves P d (.graphInput name type) (.parameter (sanitizeIoName name))
  | converted {argument : Argument} {conversion template : String} {found source : Reference}
      (kind : d.scope.kindOf (some argument) = .ok .artifact)
      (converts : sourceOf? d.scope.taskNames argument = some source)
      (task : Keyed.find? d.scope.tasks.entries conversion = some (.conversion template found))
      (same : Separates P → found.text = source.text) :
      Serves P d argument (.taskParameter conversion conversionOutput)

/-- A binding stays what it is. -/
theorem Serves.mono {d d' : Draft} (hgrows : d.Grows d') {argument : Argument}
    {reference : Reference} (h : Serves P d argument reference) :
    Serves P d' argument reference := by
  cases h with
  | constant text => exact .constant text
  | input type found kindNe => exact .input type (hgrows.kinds ▸ found) kindNe
  | converted kind converts task same =>
    exact .converted ((kindOf_congr hgrows.kinds _).trans kind) (hgrows.taskNames ▸ converts)
      (hgrows.tasks.within _ _ task) same

/-- **A binding is one to a conversion if its argument is available as an artifact only.** -/
theorem Serves.converted_iff {d : Draft} {argument : Argument} {reference : Reference}
    (h : Serves P d argument reference) :
    (∃ task name, reference = .taskParameter task name) ↔
      d.scope.kindOf (some argument) = .ok .artifact := by
  -- A constant and an input are bound as they are; only the last case is a conversion, and has the
  -- kind for it.
  cases h with
  | constant text =>
    constructor
    · rintro ⟨_, _, heq⟩
      cases heq
    · intro heq
      cases heq
  | input type found kindNe =>
    constructor
    · rintro ⟨_, _, heq⟩
      cases heq
    · intro heq
      rw [Scope.kindOf, fetch_eq_ok, found] at heq
      exact absurd (Option.some.inj heq) kindNe
  | converted kind => exact ⟨fun _ => kind, fun _ => ⟨_, _, rfl⟩⟩

/-- Something is known of an argument that has a binding. -/
theorem Serves.exists_kind {d : Draft} {argument : Argument} {reference : Reference}
    (h : Serves P d argument reference) : ∃ kind, d.scope.kindOf (some argument) = .ok kind := by
  cases h with
  | constant => exact ⟨_, rfl⟩
  | input type found => exact ⟨_, fetch_eq_ok.mpr found⟩
  | converted kind => exact ⟨_, kind⟩

/-- A file is not available as a parameter only. -/
theorem BindsFile.exists_kind {d : Draft} {argument : Argument} {reference : Reference}
    (h : BindsFile d argument reference) :
    ∃ kind, d.scope.kindOf (some argument) = .ok kind ∧ kind ≠ .parameter := by
  cases h with
  | input type found kindNe => exact ⟨_, fetch_eq_ok.mpr found, kindNe⟩
  | output => exact ⟨.artifact, rfl, fun heq => nomatch heq⟩

/-- What is bound as a file is not converted. -/
theorem BindsFile.ne_taskParameter {d : Draft} {argument : Argument} {reference : Reference}
    (h : BindsFile d argument reference) (task output : String) :
    reference ≠ .taskParameter task output := by
  cases h <;> exact fun heq => nomatch heq

/-- What a task has left in the graph around it: itself under its name, with bindings of the inputs
    that its template reads.  The template under the name that it refers to is the one that was
    asked for, as far as digests tell. -/
structure Added (P : String → Prop) (d : Draft) (id : String) (b : Binder)
    (blueprint : Blueprint) :
    Prop where
  exists_step : ∃ name template t parameters artifacts,
    Keyed.find? d.scope.taskNames id = some name ∧
    Keyed.find? d.scope.tasks.entries name = some (.step template parameters artifacts) ∧
    Keyed.find? d.templates.entries template = some t ∧
    (Separates P → SameRecord Template.record t blueprint.template) ∧
    BoundBy b (Serves P d) blueprint.parameters parameters ∧
    BoundBy b (BindsFile d) blueprint.artifacts artifacts
  /-- The record of the template that was asked for has a text. -/
  exists_text : ∃ text, structuralText (some "name") blueprint.template.record = .ok text

/-- What a task has left stays there. -/
theorem Added.mono {d d' : Draft} (hgrows : d.Grows d') {id : String} {b : Binder}
    {blueprint : Blueprint} (h : Added P d id b blueprint) : Added P d' id b blueprint := by
  obtain ⟨name, template, t, parameters, artifacts, hname, htask, hfind, hsame, hps, has⟩ :=
    h.exists_step
  exact ⟨⟨name, template, t, parameters, artifacts, hgrows.taskNames ▸ hname,
    hgrows.tasks.within _ _ htask, hgrows.templates.within _ _ hfind, hsame,
    hps.imp fun _ _ h => h.mono hgrows, has.imp fun _ _ h => h.mono hgrows⟩, h.exists_text⟩

/-! ### What is kept in order -/

/-- Inputs that were used as parameters are available so, and those that were used as artifacts too.
    The templates of conversions are those that convert, as far as digests tell. -/
structure Draft.Tidy (P : String → Prop) (s : Settings) (d : Draft) : Prop where
  parameters : ∀ input ∈ d.scope.parameters, ∃ kind,
    Keyed.find? d.scope.kinds input = some kind ∧ kind ≠ .artifact
  artifacts : ∀ input ∈ d.scope.artifacts, ∃ kind,
    Keyed.find? d.scope.kinds input = some kind ∧ kind ≠ .parameter
  conversions : ∀ entry ∈ d.scope.tasks.entries, ∀ template source,
    entry.2 = .conversion template source → ∃ t u, conversionTemplate s = .ok t ∧
      Keyed.find? d.templates.entries template = some u ∧
      (Separates P → SameRecord Template.record u t)

namespace Draft

variable {d d' : Draft} {done : List String}

/-- All bindings hold in the end when each of them holds once it is made. -/
theorem BindsAll.boundBy {binds : Draft → Argument → Reference → Draft → Prop}
    {holds : Draft → Argument → Reference → Prop}
    (hnames : ∀ d argument reference d', binds d argument reference d' → d.Named P done →
      d'.Named P done ∧ d.Grows d')
    (hholds : ∀ d argument reference d', binds d argument reference d' → d.Named P done →
      holds d' argument reference)
    (hmono : ∀ d d' argument reference, d.Grows d' → holds d argument reference →
      holds d' argument reference) {b : Binder} {names : List String}
    {bindings : List (String × Reference)} (h : BindsAll binds b d names bindings d')
    (hnamed : d.Named P done) : BoundBy b (holds d') names bindings := by
  -- By induction on the bindings; what holds of the first one still holds when the others are made.
  induction h with
  | nil => exact .nil
  | cons declared first rest _ ih =>
    obtain ⟨hnamed₁, -⟩ := hnames _ _ _ _ first hnamed
    obtain ⟨-, hgrows⟩ := rest.named hnames hnamed₁
    exact .cons ⟨declared, rfl,
      hmono _ _ _ _ hgrows (hholds _ _ _ _ first hnamed)⟩ (ih hnamed₁)

/-- Templates may be added to a draft in order. -/
theorem Tidy.withTemplates (h : d.Tidy P s) {templates : Registry Template}
    (hgrows : d.templates.Grows templates) : Draft.Tidy P s { d with templates } :=
  { h with
    conversions := fun entry hentry template source heq => by
      obtain ⟨t, u, ht, hu, hsame⟩ := h.conversions entry hentry template source heq
      exact ⟨t, u, ht, hgrows.within _ _ hu, hsame⟩ }

/-- An input may be used in a way in which it is available. -/
theorem Tidy.use (h : d.Tidy P s) {input : String} {kind : InputKind}
    (hfind : Keyed.find? d.scope.kinds input = some kind) :
    (kind ≠ .artifact → Draft.Tidy P s { d with scope := (d.scope.useParameter input).2 }) ∧
      (kind ≠ .parameter →
        Draft.Tidy P s { d with scope := (d.scope.useArtifact input).2 }) := by
  constructor
  · refine fun hne => { h with parameters := fun other hother => ?_ }
    rcases mem_insertNew.mp hother with hother | rfl
    · exact h.parameters other hother
    · exact ⟨kind, hfind, hne⟩
  · refine fun hne => { h with artifacts := fun other hother => ?_ }
    rcases mem_insertNew.mp hother with hother | rfl
    · exact h.artifacts other hother
    · exact ⟨kind, hfind, hne⟩

end Draft

/-! ### Runs keep it -/

variable {d d' : Draft} {done : List String} {reference : Reference}

/-- **A conversion is a task of the scope**, and it converts what was asked for, as far as digests
    tell. -/
theorem Run.Conversion.found {source : Reference} {name : String}
    (h : Run.Conversion P s d source name d') (hnamed : d.Named P done) :
    ∃ template found, Keyed.find? d'.scope.tasks.entries name =
      some (.conversion template found) ∧
      (Separates P → found.text = source.text) := by
  obtain ⟨hnamed', -⟩ := h.named hnamed
  obtain ⟨t, template, templates, tasks, -, -, htask, rfl⟩ := h.exists_interned
  obtain ⟨template', found, hfind⟩ := hnamed'.converts name (htask.stored hnamed.tasks).kept
  refine ⟨template', found, hfind, fun hsep => ?_⟩
  obtain ⟨task, htask, hsame⟩ := (htask.shared hsep hnamed.tasks).found
  obtain rfl := Option.some.inj (hfind.symm.trans htask)
  have houtline := congrArg TaskOutline.artifacts (taskOutline_of_sameRecord hsame)
  simpa [DagTask.outline, DagTask.artifacts, bindingTexts] using houtline

/-- A conversion keeps a draft in order. -/
theorem Run.Conversion.tidy {source : Reference} {name : String}
    (h : Run.Conversion P s d source name d') (hnamed : d.Named P done) (htidy : d.Tidy P s) :
    d'.Tidy P s := by
  obtain ⟨t, template, templates, tasks, ht, htemplate, htask, rfl⟩ := h.exists_interned
  have hstoredT := htemplate.stored hnamed.templates
  have hstored := htask.stored hnamed.tasks
  have htidy' := htidy.withTemplates hstoredT.grows
  refine { htidy' with conversions := fun entry hentry template' source' heq => ?_ }
  -- A conversion that was there keeps what it had, and a new one has what it was made with.
  rcases hstored.appended with ⟨hentries, -⟩ | ⟨-, hentries, -⟩
  · exact htidy'.conversions entry (hentries ▸ hentry) template' source' heq
  · rw [hentries] at hentry
    rcases List.mem_append.mp hentry with hentry | hentry
    · exact htidy'.conversions entry hentry template' source' heq
    · obtain rfl := List.mem_singleton.mp hentry
      obtain ⟨rfl, -⟩ := DagTask.conversion.inj heq
      obtain ⟨u, hu⟩ := Keyed.exists_find?_of_mem_keys hstoredT.listed
      refine ⟨t, u, ht, hu, fun hsep => ?_⟩
      obtain ⟨u', hu', hsame⟩ := (htemplate.shared hsep hnamed.templates).found
      obtain rfl := Option.some.inj (hu.symm.trans hu')
      exact hsame

/-- **The binding of an input that is used as a parameter** serves its argument. -/
theorem Run.Value.serves {argument : Argument} (h : Run.Value P s d argument reference d')
    (hnamed : d.Named P done) : Serves P d' argument reference := by
  have hgrows := (h.named hnamed).2
  cases h with
  | constant text => exact .constant text
  | input type found kindNe => exact .input type found kindNe
  | convertedInput type found converted =>
    obtain ⟨template, source, hfind, hsame⟩ := converted.found (hnamed.use _ _)
    exact .converted (fetch_eq_ok.mpr (hgrows.kinds ▸ found)) rfl hfind hsame
  | convertedOutput found converted =>
    obtain ⟨template, source, hfind, hsame⟩ := converted.found hnamed
    exact .converted rfl (by rw [sourceOf?, hgrows.taskNames, found]; rfl) hfind hsame

/-- So it keeps a draft in order. -/
theorem Run.Value.tidy {argument : Argument} (h : Run.Value P s d argument reference d')
    (hnamed : d.Named P done) (htidy : d.Tidy P s) : d'.Tidy P s := by
  cases h with
  | constant => exact htidy
  | input _ found kindNe => exact (htidy.use found).1 kindNe
  | convertedInput _ found converted =>
    exact converted.tidy (hnamed.use _ _) ((htidy.use found).2 fun he => nomatch he)
  | convertedOutput _ converted => exact converted.tidy hnamed htidy

/-- The binding of an input that is used as a file. -/
theorem Draft.BindsFile.binds {argument : Argument} (h : d.BindsFile argument reference d') :
    Argo.BindsFile d' argument reference := by
  cases h with
  | input type found kindNe => exact .input type found kindNe (mem_insertNew.mpr (.inr rfl))
  | output found => exact .output found

/-- So it keeps a draft in order. -/
theorem Draft.BindsFile.tidy {argument : Argument} (h : d.BindsFile argument reference d')
    (htidy : d.Tidy P s) : d'.Tidy P s := by
  cases h with
  | input _ found kindNe => exact (htidy.use found).2 kindNe
  | output => exact htidy

/-- **A task that is added** is there, with its bindings, and the draft is in order. -/
theorem Run.Task.added {id : String} {b : Binder} {blueprint : Blueprint}
    (h : Run.Task P s id b blueprint d d') (hnamed : d.Named P done) (htidy : d.Tidy P s)
    (hid : id ∉ done) : Added P d' id b blueprint ∧ d'.Tidy P s := by
  cases h with
  | @intro template name templates d₁ d₂ parameters artifacts interned values files named =>
    have hstored := interned.stored hnamed.templates
    have hnamed₀ := hnamed.withTemplates hstored.sound
    obtain ⟨hnamed₁, hgrows₁⟩ := values.named (fun _ _ _ _ hbinds => hbinds.named) hnamed₀
    obtain ⟨hnamed₂, hgrows₂⟩ := files.named (fun _ _ _ _ hbinds => hbinds.named) hnamed₁
    have hnew := hnamed₂.isNew named hid
    have hdefine : d₂.Grows { d₂ with scope := { d₂.scope with
        tasks := d₂.scope.tasks.define name (.step template parameters artifacts) } } :=
      Draft.grows_withTasks (Registry.define_grows hnew _)
    have hvalues := values.boundBy (fun _ _ _ _ hbinds => hbinds.named)
      (fun _ _ _ _ hbinds => hbinds.serves) (fun _ _ _ _ hgrows h => h.mono hgrows) hnamed₀
    have hfiles := files.boundBy (fun _ _ _ _ hbinds => hbinds.named)
      (fun _ _ _ _ hbinds _ => hbinds.binds) (fun _ _ _ _ hgrows h => h.mono hgrows) hnamed₁
    have htidy₁ : d₁.Named P done ∧ d₁.Tidy P s :=
      values.keeps (I := fun d => d.Named P done ∧ d.Tidy P s)
        (fun _ _ _ _ hbinds h => ⟨(hbinds.named h.1).1, hbinds.tidy h.1 h.2⟩)
        ⟨hnamed₀, htidy.withTemplates hstored.grows⟩
    have htidy₂ : d₂.Tidy P s := files.keeps (fun _ _ _ _ hbinds h => hbinds.tidy h) htidy₁.2
    constructor
    -- the template was interned before the bindings, which only add conversions to it
    · obtain ⟨t, ht⟩ := Keyed.exists_find?_of_mem_keys hstored.listed
      refine ⟨⟨name, template, t, parameters, artifacts, named, Keyed.find?_put_self _ _ _,
        (hgrows₁.trans hgrows₂).templates.within _ _ ht, fun hsep => ?_,
        hvalues.imp fun _ _ h => h.mono (hgrows₂.trans hdefine),
        hfiles.imp fun _ _ h => h.mono hdefine⟩, interned.exists_text hnamed.templates⟩
      obtain ⟨t', ht', hsame⟩ := (interned.shared hsep hnamed.templates).found
      obtain rfl := Option.some.inj (ht.symm.trans ht')
      exact hsame
    · refine { htidy₂ with conversions := fun entry hentry template' source heq => ?_ }
      change entry ∈ (d₂.scope.tasks.define name _).entries at hentry
      rw [Registry.define_entries hnew] at hentry
      rcases List.mem_append.mp hentry with hentry | hentry
      · exact htidy₂.conversions entry hentry template' source heq
      -- the task itself is no conversion
      · obtain rfl := List.mem_singleton.mp hentry
        cases heq

/-- The tasks of a graph keep a draft in order. -/
theorem Run.Tasks.tidy {tasks : List (String × GraphTask)} {order : List String}
    (h : Run.Tasks P s tasks order d d') (hnodup : (done ++ order).Nodup) (hnamed : d.Named P done)
    (htidy : d.Tidy P s) : d'.Tidy P s := by
  induction h generalizing done with
  | nil => exact htidy
  | @cons d d₁ d₂ id rest task component kinds blueprint templates _ _ _ made added _ ih =>
    have hid : id ∉ done := fun hmem =>
      (List.nodup_append.mp hnodup).2.2 id hmem id List.mem_cons_self rfl
    obtain ⟨ht, hgrows⟩ := blueprint_stores component _ _ _ _ _ _ hnamed.templates made
    have hnamed₀ := hnamed.withTemplates ht
    have htidy₁ := (added.added hnamed₀ (htidy.withTemplates hgrows) hid).2
    exact ih (by simpa using hnodup) (added.named hnamed₀ hid).1 htidy₁

/-! ### What is made of a component -/

/-- A blueprint is made of what stands at a path, and the templates that it needs are there. -/
structure Makes (P : String → Prop) (s : Settings) (c : Component) (final : Keyed Template)
    (path : List String) (here : Placed) (blueprint : Blueprint) : Prop where
  exists_made : ∃ kinds templates templates', Visits s c path here kinds templates ∧
    templates.Sound P Template.record ∧
    (componentBlueprint s here.arguments kinds path.reverse templates here.component).Yields P
      (blueprint, templates') ∧
    Keyed.Within templates'.entries final

/-- Templates may be added. -/
theorem Makes.mono {final final' : Keyed Template} (hw : Keyed.Within final final')
    {path : List String} {here : Placed} {blueprint : Blueprint}
    (h : Makes P s c final path here blueprint) : Makes P s c final' path here blueprint := by
  obtain ⟨kinds, templates, templates', hvisits, ht, hyields, hwithin⟩ := h.exists_made
  exact ⟨kinds, templates, templates', hvisits, ht, hyields, hwithin.trans hw⟩

/-- What is made of something was made at its place. -/
theorem Makes.place {final : Keyed Template} {path : List String} {here : Placed}
    {blueprint : Blueprint} (h : Makes P s c final path here blueprint) :
    c.at? path = some here := by
  obtain ⟨_, _, _, hvisits, -⟩ := h.exists_made
  exact hvisits.place

/-- **One blueprint is made of what stands at a path.** -/
theorem Makes.unique {final final' : Keyed Template} {path : List String} {here here' : Placed}
    {blueprint blueprint' : Blueprint} (h : Makes P s c final path here blueprint)
    (h' : Makes P s c final' path here' blueprint') : blueprint' = blueprint := by
  obtain ⟨_, _, _, hvisits, -, hyields, -⟩ := h.exists_made
  obtain ⟨_, _, _, hvisits', -, hyields', -⟩ := h'.exists_made
  obtain ⟨rfl, rfl, rfl⟩ := hvisits.unique hvisits'
  exact (Prod.mk.inj (Except.ok.inj (hyields'.1.symm.trans hyields.1))).1

/-- What is made of a container. -/
theorem Makes.container {final : Keyed Template} {path : List String} {here : Placed}
    {blueprint : Blueprint} (h : Makes P s c final path here blueprint) {container : Container}
    (himpl : here.component.implementation = .container container) :
    ∃ line, here.component.commandLine here.arguments accessors = .ok line ∧
      blueprint.parameters = line.valueInputs ∧ blueprint.artifacts = line.pathInputs := by
  obtain ⟨kinds, templates, templates', -, -, hyields, -⟩ := h.exists_made
  obtain ⟨-, hmade⟩ := container_runs himpl hyields
  obtain ⟨line, hline, hparameters, hartifacts, -⟩ := containerBlueprint_spec hmade
  refine ⟨line, ?_, hparameters, hartifacts⟩
  rw [Component.commandLine, himpl]
  exact hline

/-- The tasks of a graph one by one: when it is the turn of a task, those before it are compiled,
    then its component is, then the task is added, and then come the others. -/
theorem Begins.task {path before rest later : List String} {id : String} {around : Placed}
    {kinds : Keyed InputKind} {g : Graph} {scope : Scope}
    (h : Begins s path around kinds g (before ++ id :: later) scope) {templates : Registry Template}
    (ht : templates.Sound P Template.record) (hvisits : Visits s c path around kinds templates)
    (hyields : (runTasks (taskSteps s g.tasks) (before ++ id :: rest)
      { templates, scope }).Yields P d') :
    ∃ task component inner blueprint d d₁ templates₁, g.task? id = some task ∧
      task.reference.spec = some component ∧
      (runTasks (taskSteps s g.tasks) before { templates, scope }).Yields P d ∧
      Visits s c (id :: path) { component, arguments := task.arguments } inner d.templates ∧
      (componentBlueprint s task.arguments inner (id :: path).reverse d.templates component).Yields
        P (blueprint, templates₁) ∧
      Run.Task P s id
        { component, arguments := task.arguments, place := placeOf (d.scope.path ++ [id]) }
        blueprint { d with templates := templates₁ } d₁ ∧
      Run.Tasks P s g.tasks rest d₁ d' := by
  -- The order is cut where the task stands, and so is the run.
  rw [runTasks_append] at hyields
  obtain ⟨d, hd, hyields⟩ := Recorded.yields_bind.mp hyields
  obtain ⟨-, -, -, hpath, -⟩ := h.runs ht hd
  have hrun := runTasks_run hyields
  cases hrun with
  | @cons _ d₁ _ _ _ task component inner blueprint templates₁ found spec kinded
      made added others =>
    rw [hpath, ← List.reverse_cons] at made
    exact ⟨task, component, inner, blueprint, d, d₁, templates₁, found, spec, hd,
      .task hvisits h hd.1 found spec kinded, made, added, others⟩

/-- What is left of the compilation of a graph: the draft with all its tasks, from which the
    template was made. -/
structure GraphMade (P : String → Prop) (s : Settings) (c : Component) (final : Keyed Template)
    (path : List String) (around : Placed) (g : Graph) (order : List String) (d : Draft)
    (blueprint : Blueprint) : Prop where
  ordered : g.order around.component.inputNames = .ok order
  kinds : KindsTell c path around d.scope.kinds
  taskNames : d.scope.taskNames = emittedNames s order
  named : d.Named P order
  tidy : d.Tidy P s
  within : Keyed.Within d.templates.entries final
  parameters : blueprint.parameters = d.scope.parameters
  artifacts : blueprint.artifacts = d.scope.artifacts
  template : ∃ outputs, outputsOf d.scope g.outputValues = .ok outputs ∧
    blueprint.template = .dag (d.scope.parameters.map sanitizeIoName)
      (d.scope.artifacts.map sanitizeIoName) outputs d.scope.tasks.entries
  tasks : ∀ id task, g.task? id = some task → ∃ component inner place,
    task.reference.spec = some component ∧
    Makes P s c final (id :: path) { component, arguments := task.arguments } inner ∧
    Added P d id { component, arguments := task.arguments, place } inner

/-- **A graph is made task by task.** -/
theorem Makes.graph {final : Keyed Template} {path : List String} {around : Placed}
    {blueprint : Blueprint} (h : Makes P s c final path around blueprint) {g : Graph}
    (himpl : around.component.implementation = .graph g) :
    ∃ order d, GraphMade P s c final path around g order d blueprint := by
  obtain ⟨kinds, templates, templates', hvisits, ht, hyields, hwithin⟩ := h.exists_made
  rw [componentBlueprint_graph himpl] at hyields
  obtain ⟨order, horder, hyields⟩ := Recorded.yields_bind.mp hyields
  obtain ⟨scope, hscope, hyields⟩ := Recorded.yields_bind.mp hyields
  obtain ⟨d, hrun, hyields⟩ := Recorded.yields_bind.mp hyields
  obtain ⟨made, hmade, hyields⟩ := Recorded.yields_bind.mp hyields
  obtain ⟨rfl, rfl⟩ := Recorded.yields_pure_pair hyields
  have horder := Recorded.yields_lift.mp horder
  have hbegins : Begins s path around kinds g order scope :=
    ⟨himpl, horder, Recorded.yields_lift.mp hscope⟩
  have hplanned := hbegins.planned
  have hnodup : ([] ++ order).Nodup := hplanned.nodup
  have hstart : Draft.Named P { templates, scope } [] := Draft.named_start hbegins.started ht
  obtain ⟨hnamed, -, hkinds, -, hnames⟩ :=
    (show Begins s path around kinds g (order ++ []) scope by simpa using hbegins).runs ht hrun
  have hempty : Draft.Tidy P s { templates, scope } := by
    obtain ⟨names, a, -, rfl⟩ := start_eq hbegins.started
    exact ⟨(fun _ h => nomatch h), (fun _ h => nomatch h), fun _ h => nomatch h⟩
  obtain ⟨outputs, houtputs, hmade⟩ := bind_eq_ok.mp (Recorded.yields_lift.mp hmade)
  obtain rfl := pure_eq_ok.mp hmade
  refine ⟨order, d, horder, hkinds ▸ hvisits.kinds,
    hnames.trans (start_taskNames hbegins.started), hnamed,
    (runTasks_run hrun).tidy hnodup hstart hempty, hwithin, rfl, rfl, ⟨outputs, houtputs, rfl⟩,
    fun id task htask => ?_⟩
  -- the task has its turn, and those behind it take nothing back
  obtain ⟨before, rest, rfl⟩ :=
    List.append_of_mem ((hplanned.mem_iff id).mpr (Keyed.mem_keys_of_find? htask))
  obtain ⟨task', component, inner, made, d₀, d₁, templates₁, hfound, hspec,
    hd₀, hcomes, hyields, hadded, hothers⟩ := hbegins.task ht hvisits hrun
  obtain rfl := Option.some.inj (htask.symm.trans hfound)
  obtain ⟨hnamed₀, -⟩ := hbegins.runs ht hd₀
  have hid : id ∉ before := fun hmem =>
    (List.nodup_append.mp hplanned.nodup).2.2 id hmem id List.mem_cons_self rfl
  obtain ⟨ht₁, hgrows₀⟩ :=
    blueprint_stores component _ _ _ _ _ _ hnamed₀.templates hyields
  have hnamed₁ := hnamed₀.withTemplates ht₁
  have hbefore : ([] ++ before).Nodup := (List.nodup_append.mp hplanned.nodup).1
  have htidy₀ := (runTasks_run hd₀).tidy hbefore hstart hempty
  obtain ⟨hnamed₂, hgrows₁⟩ := hadded.named hnamed₁ hid
  obtain ⟨-, hgrows₂⟩ := hothers.named (fun _ _ inner _ => blueprint_stores inner)
    (by simpa using hplanned.nodup) hnamed₂
  obtain ⟨hleft, -⟩ := hadded.added hnamed₁ (htidy₀.withTemplates hgrows₀) hid
  exact ⟨component, made, _, hspec, ⟨_, _, _, hcomes, hnamed₀.templates, hyields,
    (hgrows₁.trans hgrows₂).templates.within.trans hwithin⟩, hleft.mono hgrows₂⟩

/-! ### Where templates come from -/

/-- A template converts, or it is that of a blueprint. -/
def Template.IsMade (P : String → Prop) (s : Settings) (c : Component) (final : Keyed Template)
    (t : Template) : Prop :=
  conversionTemplate s = .ok t ∨ ∃ path here blueprint,
    Makes P s c final path here blueprint ∧ t = blueprint.template

/-- Templates may be added. -/
theorem Template.IsMade.mono {final final' : Keyed Template} (hw : Keyed.Within final final')
    {t : Template} (h : t.IsMade P s c final) : t.IsMade P s c final' := by
  rcases h with h | ⟨path, here, blueprint, hmakes, heq⟩
  · exact .inl h
  · exact .inr ⟨path, here, blueprint, hmakes.mono hw, heq⟩

/-- A template that is stored joins the others, or is among them. -/
theorem isMade_of_stored {r r' : Registry Template} {t : Template} {name : String}
    (hstored : Registry.Stored P Template.record r t name r')
    (hold : ∀ entry ∈ r.entries, entry.2.IsMade P s c r.entries)
    (hnew : t.IsMade P s c r.entries) :
    ∀ entry ∈ r'.entries, entry.2.IsMade P s c r'.entries := by
  intro entry hentry
  rcases hstored.appended with ⟨heq, -⟩ | ⟨-, heq, -⟩
  · exact (hold entry (heq ▸ hentry)).mono hstored.grows.within
  · rw [heq] at hentry
    rcases List.mem_append.mp hentry with hentry | hentry
    · exact (hold entry hentry).mono hstored.grows.within
    · obtain rfl := List.mem_singleton.mp hentry
      exact hnew.mono hstored.grows.within

/-- Templates are interned one after another: those that convert, and those of blueprints. -/
inductive Interns (P : String → Prop) (s : Settings) (c : Component) :
    Registry Template → Registry Template → Prop
  | refl (r : Registry Template) : Interns P s c r r
  | conversion {r r' r'' : Registry Template} {t : Template} {name : String}
      (before : Interns P s c r r') (template : conversionTemplate s = .ok t)
      (interned : Registry.Interned P Template.record r' t name r'') : Interns P s c r r''
  | blueprint {r r' r'' : Registry Template} {path : List String} {here : Placed}
      {blueprint : Blueprint} {name : String} (before : Interns P s c r r')
      (makes : Makes P s c r'.entries path here blueprint)
      (interned : Registry.Interned P Template.record r' blueprint.template name r'') :
      Interns P s c r r''

/-- Templates that are interned later. -/
theorem Interns.trans {r r' r'' : Registry Template} (h : Interns P s c r r')
    (h' : Interns P s c r' r'') : Interns P s c r r'' := by
  induction h' with
  | refl => exact h
  | conversion _ template interned ih => exact .conversion ih template interned
  | blueprint _ makes interned ih => exact .blueprint ih makes interned

/-- A binding interns a template that converts, at most. -/
theorem Run.Value.interns {argument : Argument} (h : Run.Value P s d argument reference d') :
    Interns P s c d.templates d'.templates := by
  cases h with
  | constant => exact .refl _
  | input => exact .refl _
  | convertedInput _ _ converted | convertedOutput _ converted =>
    obtain ⟨t, template, templates, tasks, ht, htemplate, -, rfl⟩ := converted.exists_interned
    exact .conversion (.refl _) ht htemplate

/-- A binding of a file interns nothing. -/
theorem Draft.BindsFile.templates {argument : Argument} (h : d.BindsFile argument reference d') :
    d'.templates = d.templates := by
  cases h with
  | input => rfl
  | output => rfl

/-- A task interns the template of its blueprint first. -/
theorem Run.Task.interns {id : String} {b : Binder} {blueprint : Blueprint} {path : List String}
    {here : Placed} (h : Run.Task P s id b blueprint d d')
    (hmakes : Makes P s c d.templates.entries path here blueprint) :
    Interns P s c d.templates d'.templates := by
  cases h with
  | @intro template name templates d₁ d₂ parameters artifacts interned values files named =>
    have hvalues : Interns P s c d.templates d₁.templates :=
      values.keeps (I := fun d₁ => Interns P s c d.templates d₁.templates)
        (fun _ _ _ _ hbinds h => h.trans hbinds.interns) (.blueprint (.refl _) hmakes interned)
    have hfiles : d₂.templates = d₁.templates :=
      files.keeps (I := fun d₂ => d₂.templates = d₁.templates)
        (fun _ _ _ _ hbinds h => hbinds.templates.trans h) rfl
    exact hfiles ▸ hvalues

/-- **Whatever the compilation comes to**, its templates are interned one after another. -/
theorem blueprint_interns {path : List String} {here : Placed} {kinds : Keyed InputKind}
    {templates templates' : Registry Template} (hvisits : Visits s c path here kinds templates)
    (ht : templates.Sound P Template.record) {blueprint : Blueprint}
    (hyields : (componentBlueprint s here.arguments kinds path.reverse templates
      here.component).Yields P (blueprint, templates')) : Interns P s c templates templates' := by
  obtain ⟨component, arguments⟩ := here
  induction component using Component.nesting
    generalizing path arguments kinds templates templates' blueprint with
  | container component container himpl =>
    obtain ⟨rfl, -⟩ := container_runs himpl hyields
    exact .refl _
  | graph component g himpl ih =>
    rw [componentBlueprint_graph himpl] at hyields
    obtain ⟨order, horder, hyields⟩ := Recorded.yields_bind.mp hyields
    obtain ⟨scope, hscope, hyields⟩ := Recorded.yields_bind.mp hyields
    obtain ⟨d, hrun, hyields⟩ := Recorded.yields_bind.mp hyields
    obtain ⟨made, -, hyields⟩ := Recorded.yields_bind.mp hyields
    obtain ⟨-, rfl⟩ := Recorded.yields_pure_pair hyields
    have hbegins : Begins s path ⟨component, arguments⟩ kinds g order scope :=
      ⟨himpl, Recorded.yields_lift.mp horder, Recorded.yields_lift.mp hscope⟩
    -- the tasks that are compiled so far, one more at a time
    have hprefix : ∀ before rest d, order = before ++ rest →
        (runTasks (taskSteps s g.tasks) before { templates, scope }).Yields P d →
        Interns P s c templates d.templates := by
      intro before
      induction before using List.reverseRecOn with
      | nil =>
        intro rest d _ hd
        obtain rfl := Recorded.yields_pure.mp hd
        exact .refl _
      | append_singleton before id ihBefore =>
        intro rest d heq hd
        rw [List.append_assoc, List.singleton_append] at heq
        subst heq
        obtain ⟨task, inner, innerKinds, made, d₀, d₁, templates₁, hfound,
          hspec, hd₀, hcomes, hmade, hadded, hothers⟩ := hbegins.task ht hvisits hd
        cases hothers with
        | nil =>
          have ht₀ := (hbegins.runs ht hd₀).1.templates
          have hinner :=
            ih _ (Keyed.mem_of_find? hfound) inner hspec ht₀ task.arguments hcomes hmade
          have hmakes : Makes P s c templates₁.entries (id :: path) ⟨inner,
            task.arguments⟩ made :=
            ⟨_, _, _, hcomes, ht₀, hmade, .refl _⟩
          exact ((ihBefore (id :: rest) d₀ rfl hd₀).trans hinner).trans (hadded.interns hmakes)
    exact hprefix order [] d (List.append_nil _).symm hrun

/-- **Interning keeps templates as they have to be**: each is found under its own name, none is
    there twice, and each converts or is that of a blueprint. -/
theorem Interns.keeps {r r' : Registry Template} (h : Interns P s c r r')
    (hsound : r.Sound P Template.record) (hcomplete : r.Complete Template.record)
    (hmade : ∀ entry ∈ r.entries, entry.2.IsMade P s c r.entries) :
    r'.Sound P Template.record ∧ r'.Complete Template.record ∧
      ∀ entry ∈ r'.entries, entry.2.IsMade P s c r'.entries := by
  -- By induction on the sequence; what is stored is a conversion or the template of a blueprint.
  induction h with
  | refl => exact ⟨hsound, hcomplete, hmade⟩
  | conversion _ template interned ih =>
    obtain ⟨hsound', hcomplete', hmade'⟩ := ih
    have hstored := interned.stored hsound'
    exact ⟨hstored.sound, interned.complete hsound' hcomplete',
      isMade_of_stored hstored hmade' (.inl template)⟩
  | blueprint _ makes interned ih =>
    obtain ⟨hsound', hcomplete', hmade'⟩ := ih
    have hstored := interned.stored hsound'
    exact ⟨hstored.sound, interned.complete hsound' hcomplete',
      isMade_of_stored hstored hmade' (.inr ⟨_, _, _, makes, rfl⟩)⟩

/-- A template that is shared with one that converts does so itself. -/
theorem conversion_of_sameTemplate {t u : Template} (ht : conversionTemplate s = .ok t)
    (h : SameRecord Template.record u t) :
    ∃ input output launch, u = .conversion input output launch := by
  have houtline := (outline_of_sameRecord h).trans (conversionTemplate_outline ht)
  cases u with
  | container => cases houtline
  | dag => cases houtline
  | conversion input output launch => exact ⟨input, output, launch, rfl⟩

/-! ### Whole workflows -/

/-- What is left of the compilation of a pipeline: the blueprint of its component, whose template
    is the entry point as far as digests tell, and templates that are made on the way. -/
structure PipelineMade (P : String → Prop) (s : Settings) (c : Component) (w : Workflow)
    (root : Blueprint) : Prop where
  makes : Makes P s c w.templates [] { component := c, arguments := rootArguments c } root
  entrypoint : ∃ t, Keyed.find? w.templates w.entrypoint = some t ∧
    (Separates P → SameRecord Template.record t root.template)
  exists_text : ∃ text, structuralText (some "name") root.template.record = .ok text
  nodup : (Keyed.keys w.templates).Nodup
  different : ∀ entry ∈ w.templates, ∀ other ∈ w.templates,
    SameRecord Template.record entry.2 other.2 → entry = other
  texts : ∀ entry ∈ w.templates, ∃ text,
    structuralText (some "name") entry.2.record = .ok text
  templates : ∀ entry ∈ w.templates, entry.2.IsMade P s c w.templates

/-- **The compilation of a pipeline**, whether digests tell texts apart or not. -/
theorem compile_made {context : Context} {arguments : Keyed Value} {w : Workflow}
    (hyields : (compile context c arguments).Yields P w) :
    ∃ s root, context.settings = .ok s ∧ PipelineMade P s c w root := by
  obtain ⟨s, root, templates, templates', hs, hroot, hinterned, hentries, -⟩ :=
    compile_interned hyields
  have hempty : (Registry.empty s.policy : Registry Template).Sound P Template.record :=
    Registry.sound_empty (policy_delimiter_legal s)
  have hinterns : Interns P s c (.empty s.policy) templates := blueprint_interns .root hempty hroot
  have hmakes : Makes P s c templates.entries [] { component := c, arguments := rootArguments c }
      root := ⟨_, _, _, .root, hempty, hroot, .refl _⟩
  -- The two steps of the compilation, the blueprint and its template, are one sequence of interned
  -- templates, to which the invariant applies.
  obtain ⟨hsound, -⟩ := hinterns.keeps hempty (fun _ h => nomatch h) (fun _ h => nomatch h)
  obtain ⟨hsound', hcomplete, hmade⟩ :=
    (Interns.blueprint hinterns hmakes hinterned).keeps hempty
    (fun _ h => nomatch h) (fun _ h => nomatch h)
  have hstored := hinterned.stored hsound
  refine ⟨s, root, hs, ⟨hentries ▸ hmakes.mono hstored.grows.within, ?_,
    hinterned.exists_text hsound, hentries ▸ hsound'.nodup,
    fun entry hentry other hother hsame => ?_, fun entry hentry => ?_, hentries ▸ hmade⟩⟩
  · obtain ⟨t, ht⟩ := Keyed.exists_find?_of_mem_keys hstored.listed
    refine ⟨t, hentries ▸ ht, fun hsep => ?_⟩
    obtain ⟨t', ht', hsame⟩ := (hinterned.shared hsep hsound).found
    obtain rfl := Option.some.inj (ht.symm.trans ht')
    exact hsame
  · rw [← hentries] at hentry hother
    exact hcomplete.eq_of_sameRecord hsound'.nodup hentry hother hsame
  · obtain ⟨text, htext, -⟩ := hcomplete entry (hentries ▸ hentry)
    exact ⟨text, htext⟩

/-- **Something is made of every task** of a graph that something is made of.  The record of its
    template has a text, and the template is there as far as digests tell. -/
theorem Makes.inner {final : Keyed Template} {path : List String} {around : Placed}
    {blueprint : Blueprint} (h : Makes P s c final path around blueprint) {id : String}
    {here : Placed} (hhere : c.at? (id :: path) = some here) :
    ∃ made, Makes P s c final (id :: path) here made ∧
      (∃ text, structuralText (some "name") made.template.record = .ok text) ∧
      (Separates P → ∃ entry ∈ final, SameRecord Template.record entry.2 made.template) := by
  -- The task is looked up, and it is one of those that were added to the draft of the graph.
  obtain ⟨around', g, task, haround, hg, htask, hspec, harguments⟩ := at?_cons.mp hhere
  obtain rfl := Option.some.inj (h.place.symm.trans haround)
  obtain ⟨order, d, hgraph⟩ := h.graph hg
  obtain ⟨component, made, place, hspec', hmade, hadded⟩ := hgraph.tasks id task htask
  obtain rfl := Option.some.inj (hspec.symm.trans hspec')
  obtain ⟨name, template, t, parameters, artifacts, -, -, ht, hsame, -⟩ := hadded.exists_step
  rw [← harguments] at hmade
  exact ⟨made, hmade, hadded.exists_text, fun hsep =>
    ⟨_, Keyed.mem_of_find? (hgraph.within _ _ ht), hsame hsep⟩⟩

/-- **Something is made of everything in a pipeline.**  The record of its template has a text, and
    the template is in the workflow as far as digests tell. -/
theorem PipelineMade.exists_makes {w : Workflow} {root : Blueprint}
    (h : PipelineMade P s c w root) {path : List String} {here : Placed}
    (hhere : c.at? path = some here) :
    ∃ blueprint, Makes P s c w.templates path here blueprint ∧
      (∃ text, structuralText (some "name") blueprint.template.record = .ok text) ∧
      (Separates P → ∃ entry ∈ w.templates,
        SameRecord Template.record entry.2 blueprint.template) := by
  -- By induction on the path, from the pipeline inwards.
  induction path generalizing here with
  | nil =>
    obtain rfl := Option.some.inj hhere
    obtain ⟨t, ht, hsame⟩ := h.entrypoint
    exact ⟨root, h.makes, h.exists_text, fun hsep => ⟨_, Keyed.mem_of_find? ht, hsame hsep⟩⟩
  | cons id outer ih =>
    obtain ⟨around, g, task, haround, -⟩ := at?_cons.mp hhere
    obtain ⟨blueprint, hmakes, -⟩ := ih haround
    exact hmakes.inner hhere

/-- So its template is there. -/
theorem PipelineMade.everywhere {w : Workflow} {root : Blueprint} (h : PipelineMade P s c w root)
    {path : List String} {here : Placed} (hhere : c.at? path = some here) :
    ∃ blueprint, Makes P s c w.templates path here blueprint ∧
      (Separates P → ∃ entry ∈ w.templates,
        SameRecord Template.record entry.2 blueprint.template) := by
  obtain ⟨blueprint, hmakes, -, hfound⟩ := h.exists_makes hhere
  exact ⟨blueprint, hmakes, hfound⟩

end PipelineCompiler.Argo
