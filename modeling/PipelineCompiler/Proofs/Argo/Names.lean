import PipelineCompiler.Proofs.Argo.Made
import PipelineCompiler.Proofs.Argo.Origin
import PipelineCompiler.Proofs.Argo.Outputs
import PipelineCompiler.Proofs.Component.Loaded

namespace PipelineCompiler.Argo

/-!
# Names of inputs and outputs in workflows

The names of inputs and outputs are made safe one character at a time, and nothing else is done to
keep them apart.  So they are different in a workflow as far as their safe forms are.

* `ListsNames` — a list in a document has the safe forms of different names;
* `PathsTell` — files have different paths if they have different names;
* `Draft.ListsOnce`, `Run.Tasks.listsOnce` — no input is listed twice while a graph is compiled,
  and references to outputs of tasks are those that the graph mentions;
* `ReferencesTell` — within a graph such references tell the tasks apart, and outputs by their
  safe forms;
* `KeepsNames`, `PipelineMade.keepsNames` — all this holds of all templates;
* `compile_keeps_names` — for whatever is loaded;
* `dashedValue_confuses` — names with one safe form are not kept apart.
-/

variable {P : String → Prop} {s : Settings} {c : Component}

/-! ### Safe forms -/

/-- The safe forms of different names are different if and only if no two names have one. -/
theorem nodup_map_sanitizeIoName {names : List String} (h : names.Nodup) :
    (names.map sanitizeIoName).Nodup ↔ DistinctNames names := by
  constructor
  · intro hnodup a ha b hb heq
    exact List.inj_on_of_nodup_map hnodup ha hb heq
  · intro hdistinct
    exact h.map_on hdistinct

/-- A list in a document has the safe forms of different names among those that are declared. -/
def ListsNames (listed declared : List String) : Prop :=
  ∃ names, names.Nodup ∧ names ⊆ declared ∧ listed = names.map sanitizeIoName ∧
    (listed.Nodup ↔ DistinctNames names)

/-- Different names that are declared. -/
theorem listsNames_of_nodup {names declared : List String} (hnodup : names.Nodup)
    (hdeclared : names ⊆ declared) : ListsNames (names.map sanitizeIoName) declared :=
  ⟨names, hnodup, hdeclared, rfl, nodup_map_sanitizeIoName hnodup⟩

/-! ### Files -/

/-- Files have different paths if and only if they have different names. -/
def PathsTell (files : List ArtifactFile) : Prop :=
  (files.map ArtifactFile.path).Nodup ↔ (files.map ArtifactFile.name).Nodup

/-- The files of the input artifacts of a template; a graph has none. -/
def Template.inputFiles : Template → List ArtifactFile
  | .container _ artifacts _ _ => artifacts
  | .conversion input _ _ => [input]
  | .dag _ _ _ _ => []

/-- The files of the output artifacts of a template. -/
def Template.outputFiles : Template → List ArtifactFile
  | .container _ _ outputs _ => outputs
  | .conversion _ _ _ | .dag _ _ _ _ => []

/-- A text between two others is told by the whole. -/
theorem intercalate_inj (root leaf a b : String) :
    "/".intercalate [root, a, leaf] = "/".intercalate [root, b, leaf] ↔ a = b := by
  constructor
  · intro heq
    have hchars := congrArg String.toList heq
    simp only [String.toList_intercalate, List.map_cons, List.map_nil] at hchars
    have hinner : a.toList ++ ("/".toList ++ leaf.toList) =
        b.toList ++ ("/".toList ++ leaf.toList) := by
      simpa [List.intercalate, List.intersperse] using hchars
    exact String.toList_inj.mp (List.append_cancel_right hinner)
  · rintro rfl
    rfl

/-- **Files below one directory** have different paths if and only if they have different names. -/
theorem pathsTell_of_mapM {directory : String} {names : List String} {files : List ArtifactFile}
    (h : names.mapM (fileOf s directory) = .ok files) : PathsTell files := by
  have hmade : ∀ file ∈ files, ∃ name, fileOf s directory name = .ok file := by
    induction names generalizing files with
    | nil =>
      obtain rfl := pure_eq_ok.mp h
      exact fun _ hfile => nomatch hfile
    | cons name rest ih =>
      rw [List.mapM_cons] at h
      obtain ⟨file, hfile, h⟩ := bind_eq_ok.mp h
      obtain ⟨others, hothers, h⟩ := bind_eq_ok.mp h
      obtain rfl := pure_eq_ok.mp h
      intro other hother
      rcases List.mem_cons.mp hother with rfl | hother
      · exact ⟨name, hfile⟩
      · exact ih hothers other hother
  have htell : ∀ file ∈ files, ∀ other ∈ files, file.path = other.path ↔
    file.name = other.name := by
    intro file hfile other hother
    obtain ⟨name, hname⟩ := hmade file hfile
    obtain ⟨name', hname'⟩ := hmade other hother
    -- the directory and the name of the file in it are the same settings for both
    obtain ⟨root, hroot, hname⟩ := bind_eq_ok.mp hname
    obtain ⟨leaf, hleaf, hname⟩ := bind_eq_ok.mp hname
    obtain rfl := pure_eq_ok.mp hname
    obtain ⟨root', hroot', hname'⟩ := bind_eq_ok.mp hname'
    obtain ⟨leaf', hleaf', hname'⟩ := bind_eq_ok.mp hname'
    obtain rfl := pure_eq_ok.mp hname'
    obtain rfl := Except.ok.inj (hroot.symm.trans hroot')
    obtain rfl := Except.ok.inj (hleaf.symm.trans hleaf')
    exact intercalate_inj _ _ _ _
  unfold PathsTell List.Nodup
  rw [List.pairwise_map, List.pairwise_map]
  exact List.Pairwise.iff_of_mem fun ha hb => not_congr (htell _ ha _ hb)

/-! ### While a graph is compiled -/

variable {d d' : Draft} {done : List String} {reference : Reference}
  {mentioned : TaskOutput → Prop}

/-- No input is listed twice, and references to outputs of tasks are those to outputs that are
    mentioned. -/
structure Draft.ListsOnce (mentioned : TaskOutput → Prop) (d : Draft) : Prop where
  parameters : d.scope.parameters.Nodup
  artifacts : d.scope.artifacts.Nodup
  emitted : ∀ entry ∈ d.scope.tasks.entries, ∀ task output,
    Reference.taskArtifact task output ∈ entry.2.references →
      d.Emits mentioned (.taskArtifact task output)

/-- A conversion refers to what it converts. -/
theorem Run.Conversion.listsOnce {source : Reference} {name : String}
    (h : Run.Conversion P s d source name d') (hnamed : d.Named P done)
    (hlists : d.ListsOnce mentioned)
    (hsource : ∀ task output, source = .taskArtifact task output →
      d.Emits mentioned (.taskArtifact task output)) : d'.ListsOnce mentioned := by
  obtain ⟨t, template, templates, tasks, -, -, htask, rfl⟩ := h.exists_interned
  refine ⟨hlists.parameters, hlists.artifacts, fun entry hentry task output hmem => ?_⟩
  change entry ∈ tasks.entries at hentry
  -- Nothing was stored, or one conversion, whose only reference is the one to its source.
  rcases (htask.stored hnamed.tasks).appended with ⟨heq, -⟩ | ⟨-, heq, -⟩
  · exact hlists.emitted entry (heq ▸ hentry) task output hmem
  · rw [heq] at hentry
    rcases List.mem_append.mp hentry with hentry | hentry
    · exact hlists.emitted entry hentry task output hmem
    · obtain rfl := List.mem_singleton.mp hentry
      have hsame : Reference.taskArtifact task output = source := by
        simpa [DagTask.references, DagTask.parameters, DagTask.artifacts] using hmem
      exact hsource task output hsame.symm

/-- The binding of an input that is used as a parameter. -/
theorem Run.Value.listsOnce {argument : Argument} (h : Run.Value P s d argument reference d')
    (hnamed : d.Named P done) (hlists : d.ListsOnce mentioned)
    (hmentioned : ∀ source, argument = .taskOutput source → mentioned source) :
    d'.ListsOnce mentioned := by
  cases h with
  | constant => exact hlists
  | input => exact { hlists with parameters := nodup_insertNew hlists.parameters _ }
  | convertedInput _ _ converted =>
    exact converted.listsOnce (hnamed.use _ _)
      { hlists with artifacts := nodup_insertNew hlists.artifacts _ } fun _ _ heq => nomatch heq
  | convertedOutput found converted =>
    refine converted.listsOnce hnamed hlists fun task output heq => ?_
    obtain ⟨rfl, rfl⟩ := Reference.taskArtifact.inj heq
    exact ⟨_, hmentioned _ rfl, found, rfl⟩

/-- What is used as a parameter is no artifact. -/
theorem Run.Value.ne_taskArtifact {argument : Argument} (h : Run.Value P s d argument reference d')
    (task output : String) : reference ≠ .taskArtifact task output := by
  cases h <;> exact fun heq => nomatch heq

/-- The binding of a file. -/
theorem Draft.BindsFile.listsOnce {argument : Argument} (h : d.BindsFile argument reference d')
    (hlists : d.ListsOnce mentioned)
    (hmentioned : ∀ source, argument = .taskOutput source → mentioned source) :
    d'.ListsOnce mentioned ∧ ∀ task output, reference = .taskArtifact task output →
      d'.Emits mentioned (.taskArtifact task output) := by
  cases h with
  | input =>
    exact ⟨{ hlists with artifacts := nodup_insertNew hlists.artifacts _ },
      fun _ _ heq => nomatch heq⟩
  | output found =>
    refine ⟨hlists, fun task output heq => ?_⟩
    obtain ⟨rfl, rfl⟩ := Reference.taskArtifact.inj heq
    exact ⟨_, hmentioned _ rfl, found, rfl⟩

/-- The arguments of a task refer to outputs that are mentioned. -/
def Binder.Mentions (b : Binder) (mentioned : TaskOutput → Prop) : Prop :=
  ∀ name source, b.component.argumentFor b.arguments name = .taskOutput source →
    mentioned source

/-- The bindings of inputs that are used as parameters. -/
theorem Draft.BindsAll.listsOnce {b : Binder} {names : List String}
    {bindings : List (String × Reference)}
    (h : Draft.BindsAll (Run.Value P s) b d names bindings d')
    (hb : b.Mentions mentioned) (hnamed : d.Named P done) (hlists : d.ListsOnce mentioned) :
    d'.ListsOnce mentioned ∧ ∀ binding ∈ bindings, ∀ task output,
      binding.2 ≠ .taskArtifact task output := by
  -- By induction on the bindings: a parameter is never bound to an artifact, since that is
  -- converted first.
  induction h with
  | nil => exact ⟨hlists, fun _ hbinding => nomatch hbinding⟩
  | @cons d d₁ d₂ name _ _ _ _ first _ _ ih =>
    obtain ⟨hlists', hothers⟩ :=
      ih (first.named hnamed).1 (first.listsOnce hnamed hlists (hb name))
    refine ⟨hlists', fun binding hbinding => ?_⟩
    rcases List.mem_cons.mp hbinding with rfl | hbinding
    · exact first.ne_taskArtifact
    · exact hothers binding hbinding

/-- The bindings of files. -/
theorem Draft.BindsAll.listsFilesOnce {b : Binder} {names : List String}
    {bindings : List (String × Reference)}
    (h : Draft.BindsAll Draft.BindsFile b d names bindings d')
    (hb : b.Mentions mentioned) (hlists : d.ListsOnce mentioned) :
    d'.ListsOnce mentioned ∧ ∀ binding ∈ bindings, ∀ task output,
      binding.2 = .taskArtifact task output → d'.Emits mentioned (.taskArtifact task output) := by
  -- By induction on the bindings; what is mentioned once stays mentioned.
  induction h with
  | nil => exact ⟨hlists, fun _ hbinding => nomatch hbinding⟩
  | @cons d d₁ d₂ name _ _ _ _ first rest _ ih =>
    obtain ⟨hlists₁, hfirst⟩ := first.listsOnce hlists (hb name)
    obtain ⟨hlists₂, hothers⟩ := ih hlists₁
    refine ⟨hlists₂, fun binding hbinding => ?_⟩
    rcases List.mem_cons.mp hbinding with rfl | hbinding
    · exact fun task output heq =>
        (hfirst task output heq).mono (rest.grows fun _ _ _ _ hbinds => hbinds.grows)
    · exact hothers binding hbinding

/-- **A task.** -/
theorem Run.Task.listsOnce {id : String} {b : Binder} {blueprint : Blueprint}
    (h : Run.Task P s id b blueprint d d') (hb : b.Mentions mentioned) (hnamed : d.Named P done)
    (hid : id ∉ done) (hlists : d.ListsOnce mentioned) : d'.ListsOnce mentioned := by
  cases h with
  | @intro template name templates d₁ d₂ parameters artifacts interned values files named =>
    have hnamed₀ := hnamed.withTemplates (interned.stored hnamed.templates).sound
    obtain ⟨hnamed₁, -⟩ := values.named (fun _ _ _ _ hbinds => hbinds.named) hnamed₀
    obtain ⟨hnamed₂, -⟩ := files.named (fun _ _ _ _ hbinds => hbinds.named) hnamed₁
    obtain ⟨hlists₁, hvalues⟩ := values.listsOnce hb hnamed₀
      ⟨hlists.parameters, hlists.artifacts, hlists.emitted⟩
    obtain ⟨hlists₂, hfiles⟩ := files.listsFilesOnce hb hlists₁
    refine ⟨hlists₂.parameters, hlists₂.artifacts, fun entry hentry task output hmem => ?_⟩
    change entry ∈ (d₂.scope.tasks.define name _).entries at hentry
    rw [Registry.define_entries (hnamed₂.isNew named hid)] at hentry
    -- References of earlier tasks stay listed once, and those of this task come from its two kinds
    -- of bindings, of which only files refer to outputs.
    rcases List.mem_append.mp hentry with hentry | hentry
    · exact hlists₂.emitted entry hentry task output hmem
    · obtain rfl := List.mem_singleton.mp hentry
      obtain ⟨binding, hbinding, heq⟩ := List.mem_map.mp hmem
      rcases List.mem_append.mp hbinding with hbinding | hbinding
      · exact absurd heq (hvalues binding hbinding task output)
      · exact hfiles binding hbinding task output heq

/-- **The tasks of a graph.** -/
theorem Run.Tasks.listsOnce {tasks : List (String × GraphTask)} {order : List String}
    (h : Run.Tasks P s tasks order d d')
    (hmentioned : ∀ entry ∈ tasks, ∀ argument ∈ entry.2.arguments, ∀ source,
      argument.2 = .taskOutput source → mentioned source)
    (hnodup : (done ++ order).Nodup) (hnamed : d.Named P done) (hlists : d.ListsOnce mentioned) :
    d'.ListsOnce mentioned := by
  -- By induction on the run, with the names of the tasks done so far.
  induction h generalizing done with
  | nil => exact hlists
  | @cons d d₁ d₂ id rest task component kinds blueprint templates found _ _ made added _ ih =>
    have hid : id ∉ done := fun hmem =>
      (List.nodup_append.mp hnodup).2.2 id hmem id List.mem_cons_self rfl
    obtain ⟨ht, -⟩ := blueprint_stores component _ _ _ _ _ _ hnamed.templates made
    have hnamed₀ := hnamed.withTemplates ht
    refine ih (by simpa using hnodup) (added.named hnamed₀ hid).1
      (added.listsOnce (fun name source hsource => ?_) hnamed₀ hid
        ⟨hlists.parameters, hlists.artifacts, hlists.emitted⟩)
    obtain ⟨entry, hentry, heq⟩ := argumentFor_mem hsource fun _ he => nomatch he
    exact hmentioned _ (Keyed.mem_of_find? found) entry hentry source heq

/-! ### References to outputs of tasks -/

/-- All references in the template of a graph. -/
def Template.references : Template → List Reference
  | .dag _ _ outputs tasks =>
    outputs.map (·.2) ++ tasks.flatMap fun entry => entry.2.references
  | .container _ _ _ _ | .conversion _ _ _ => []

/-- How a graph, whose tasks have some names, refers to outputs of its tasks: a template refers to
    those that the graph mentions and to no others, by texts that are the same if and only if the
    task is the same and the names of the outputs have one safe form. -/
structure ReferencesTell (g : Graph) (names : Keyed String) (t : Template) : Prop where
  known : ∀ source ∈ g.mentioned, ∃ r, sourceOf? names (.taskOutput source) = some r
  mentioned : ∀ task output, Reference.taskArtifact task output ∈ t.references →
    ∃ source ∈ g.mentioned,
      sourceOf? names (.taskOutput source) = some (.taskArtifact task output)
  apart : ∀ a b r r', sourceOf? names (.taskOutput a) = some r →
    sourceOf? names (.taskOutput b) = some r' →
    (r.text = r'.text ↔ a.task = b.task ∧ sanitizeIoName a.output = sanitizeIoName b.output)

/-- The reference to an output of a task. -/
theorem sourceOf?_taskOutput {names : Keyed String} {source : TaskOutput} {r : Reference} :
    sourceOf? names (.taskOutput source) = some r ↔ ∃ task,
      Keyed.find? names source.task = some task ∧
        r = .taskArtifact task (sanitizeIoName source.output) := by
  rw [sourceOf?, Option.map_eq_some_iff]
  exact exists_congr fun task => and_congr_right fun _ => eq_comm

/-- **References tell tasks apart**, because the names of tasks are legal. -/
theorem Draft.Named.apart (h : d.Named P done) {a b : TaskOutput} {r r' : Reference}
    (hr : sourceOf? d.scope.taskNames (.taskOutput a) = some r)
    (hr' : sourceOf? d.scope.taskNames (.taskOutput b) = some r') :
    r.text = r'.text ↔ a.task = b.task ∧ sanitizeIoName a.output = sanitizeIoName b.output := by
  obtain ⟨task, htask, rfl⟩ := sourceOf?_taskOutput.mp hr
  obtain ⟨task', htask', rfl⟩ := sourceOf?_taskOutput.mp hr'
  have hreadable : ∀ id name output, Keyed.find? d.scope.taskNames id = some name →
      (Reference.taskArtifact name (sanitizeIoName output)).IsReadable :=
        fun id name output hname =>
    ⟨hasNoPoint_of_legal (h.tasks.legal name (h.reserved id name hname).1),
      sanitizeIoName_hasNoPoint output⟩
  -- A text that is read back gives the task and the output; and tasks have different names.
  constructor
  · intro heq
    have hread := congrArg Reference.read heq
    rw [read_text (hreadable _ _ _ htask), read_text (hreadable _ _ _ htask')] at hread
    obtain ⟨rfl, hname⟩ := Reference.taskArtifact.inj hread
    exact ⟨h.distinct _ _ _ htask htask', hname⟩
  · rintro ⟨hid, hname⟩
    obtain rfl := Option.some.inj (htask.symm.trans (hid ▸ htask'))
    rw [hname]

/-! ### What a compilation comes to -/

/-- What is known of the inputs of a task is known of all of them and of nothing else. -/
theorem keys_kindsOf {scope : Scope} {arguments : Keyed Argument} {specs : List InputSpec}
    {inner : Keyed InputKind} (h : scope.kindsOf arguments specs = .ok inner) :
    Keyed.keys inner = specs.map InputSpec.name := by
  induction specs generalizing inner with
  | nil =>
    obtain rfl := Except.ok.inj h
    rfl
  | cons input rest ih =>
    obtain ⟨kind, -, h⟩ := bind_eq_ok.mp h
    obtain ⟨others, hothers, h⟩ := bind_eq_ok.mp h
    obtain rfl := pure_eq_ok.mp h
    exact congrArg (input.name :: ·) (ih hothers)

/-- So it is wherever the compilation comes to. -/
theorem Visits.keys {path : List String} {here : Placed} {kinds : Keyed InputKind}
    {templates : Registry Template} (h : Visits s c path here kinds templates) :
    Keyed.keys kinds = here.component.inputNames := by
  cases h with
  | root => simp [rootKinds, Keyed.keys, Function.comp_def]
  | task _ _ _ _ _ kinded => exact keys_kindsOf kinded

/-- The names in the template of what stands somewhere are those of its own inputs and outputs, and
    are kept apart as far as their safe forms are. -/
structure KeepsNames (s : Settings) (c : Component) (t : Template) : Prop where
  parameters : ListsNames t.inputParameters c.inputNames
  artifacts : ListsNames t.inputArtifacts c.inputNames
  inputPaths : PathsTell t.inputFiles
  outputs : t.outputArtifacts = c.givenOutputs.map sanitizeIoName ∧ c.givenOutputs.Nodup ∧
    (t.outputArtifacts.Nodup ↔ DistinctNames c.givenOutputs)
  outputPaths : PathsTell t.outputFiles
  references : ∀ g, c.implementation = .graph g → ∃ names, emittedTasks? s c = some names ∧
    ReferencesTell g names t

/-- What is given out has different names. -/
theorem nodup_givenOutputs (h : c.NamesDiffer) : c.givenOutputs.Nodup := by
  unfold Component.givenOutputs
  cases himpl : c.implementation with
  | container => exact h.outputs
  | graph g => exact h.outputValues g himpl

/-- **A container.** -/
theorem keepsNames_of_container {container : Container}
    (himpl : c.implementation = .container container) {arguments : Keyed Argument}
    {blueprint : Blueprint} (h : containerBlueprint s c container arguments = .ok blueprint)
    (hdiffer : c.NamesDiffer) : KeepsNames s c blueprint.template := by
  have hgiven : c.givenOutputs = c.outputNames := by rw [Component.givenOutputs, himpl]
  obtain ⟨line, hline, h⟩ := bind_eq_ok.mp h
  obtain ⟨artifacts, hartifacts, h⟩ := bind_eq_ok.mp h
  obtain ⟨outputs, houtputs, h⟩ := bind_eq_ok.mp h
  obtain rfl := pure_eq_ok.mp h
  -- Which inputs are listed is read off the command line: each once, and only declared ones.
  have hlists : line.Lists fun _ => True :=
    commandLine_uses ⟨fun _ _ _ _ => trivial, fun _ _ _ _ => trivial⟩ hline
  have hdeclared := commandLine_declared hline
  have hinputs := names_of_mapM_fileOf hartifacts
  have hnames := names_of_mapM_fileOf houtputs
  refine ⟨?_, ?_, pathsTell_of_mapM hartifacts, ?_, pathsTell_of_mapM houtputs, ?_⟩
  · exact listsNames_of_nodup hlists.valuesNodup fun input hinput =>
      hdeclared input (List.mem_append_left _ hinput)
  · show ListsNames (artifacts.map ArtifactFile.name) _
    rw [hinputs]
    exact listsNames_of_nodup hlists.pathsNodup fun input hinput =>
      hdeclared input (List.mem_append_right _ hinput)
  · show outputs.map ArtifactFile.name = _ ∧ _ ∧ ((outputs.map ArtifactFile.name).Nodup ↔ _)
    rw [hnames, hgiven]
    exact ⟨rfl, hdiffer.outputs, nodup_map_sanitizeIoName hdiffer.outputs⟩
  · intro g hg
    rw [himpl] at hg
    cases hg

/-- **A graph.** -/
theorem keepsNames_of_graph {g : Graph} {path : List String} {here : Placed}
    (himpl : here.component.implementation = .graph g) {kinds : Keyed InputKind}
    {templates templates' : Registry Template} (hvisits : Visits s c path here kinds templates)
    (ht : templates.Sound P Template.record) {blueprint : Blueprint}
    (hyields : (componentBlueprint s here.arguments kinds path.reverse templates
      here.component).Yields P (blueprint, templates')) (hdiffer : here.component.NamesDiffer) :
    KeepsNames s here.component blueprint.template := by
  have hgiven := blueprint_outputs hyields
  obtain ⟨order, scope, d, horder, hscope, hrun, -, hmade⟩ := graph_run himpl hyields
  have hplanned := order_planned horder
  have hnodup : ([] ++ order).Nodup := hplanned.nodup
  have hstart : Draft.Named P { templates, scope } [] := Draft.named_start hscope ht
  obtain ⟨names, a, hgivenNames, hscopeEq⟩ := start_eq hscope
  have hempty : Draft.ListsOnce (· ∈ g.mentioned) { templates, scope } := by
    rw [hscopeEq]
    exact ⟨List.nodup_nil, List.nodup_nil, fun _ hentry => nomatch hentry⟩
  have htidyStart : Draft.Tidy P s { templates, scope } := by
    rw [hscopeEq]
    exact ⟨(fun _ h => nomatch h), (fun _ h => nomatch h), fun _ h => nomatch h⟩
  obtain ⟨hnamed, hgrows⟩ :=
    hrun.named (fun _ _ inner _ => blueprint_stores inner) hnodup hstart
  have htidy := hrun.tidy hnodup hstart htidyStart
  have hlists := hrun.listsOnce (fun entry hentry argument hargument source =>
    mem_mentioned_of_argument hentry hargument) hnodup hstart hempty
  have hkinds : d.scope.kinds = kinds := by
    rw [hgrows.kinds, hscopeEq]
  have htaskNames : d.scope.taskNames = emittedNames s order :=
    hgrows.taskNames.trans (start_taskNames hscope)
  have hdeclared : ∀ input kind, Keyed.find? d.scope.kinds input = some kind →
      input ∈ here.component.inputNames := by
    intro input kind hfind
    rw [hkinds] at hfind
    exact hvisits.keys ▸ Keyed.mem_keys_of_find? hfind
  obtain ⟨outputs, houtputs, hmade⟩ := bind_eq_ok.mp hmade
  obtain rfl := pure_eq_ok.mp hmade
  refine ⟨?_, ?_, Iff.rfl, ?_, Iff.rfl, fun g' hg' => ?_⟩
  · refine listsNames_of_nodup hlists.parameters fun input hinput => ?_
    obtain ⟨kind, hfind, -⟩ := htidy.parameters input hinput
    exact hdeclared input kind hfind
  · refine listsNames_of_nodup hlists.artifacts fun input hinput => ?_
    obtain ⟨kind, hfind, -⟩ := htidy.artifacts input hinput
    exact hdeclared input kind hfind
  · have houtputs := nodup_givenOutputs hdiffer
    refine ⟨hgiven, houtputs, ?_⟩
    rw [hgiven]
    exact nodup_map_sanitizeIoName houtputs
  · obtain rfl := Implementation.graph.inj (himpl.symm.trans hg')
    refine ⟨emittedNames s order, ?_, ?_⟩
    · rw [emittedTasks?, graph?_eq_some.mpr himpl]
      simp [horder, Except.toOption]
    rw [← htaskNames]
    refine ⟨fun source hsource => ?_, fun task output hmem => ?_, fun _ _ _ _ => hnamed.apart⟩
    · obtain ⟨producer, -, hproducer, -⟩ := hplanned.mentioned hsource
      have hid : source.task ∈ order :=
        (hplanned.mem_iff _).mpr (Keyed.mem_keys_of_find? hproducer)
      obtain ⟨name, hname, -⟩ := hnamed.placed source.task (by simpa using hid)
      exact ⟨_, sourceOf?_taskOutput.mpr ⟨name, hname, rfl⟩⟩
    rcases List.mem_append.mp hmem with hmem | hmem
    -- an output of the graph, or a binding of a task
    · obtain ⟨given, hgiven, heq⟩ := List.mem_map.mp hmem
      obtain ⟨value, hvalue, -, hreference⟩ :=
        exists_left_of_mem (outputsOf_spec houtputs) hgiven
      obtain ⟨name, hname, hreference⟩ := taskArtifact_eq_ok.mp hreference
      refine ⟨value.2, List.mem_append_right _ (List.mem_map_of_mem hvalue), ?_⟩
      exact sourceOf?_taskOutput.mpr ⟨name, hname, heq.symm.trans hreference⟩
    · obtain ⟨entry, hentry, hmem⟩ := List.mem_flatMap.mp hmem
      obtain ⟨source, hsource, hname, rfl⟩ := hlists.emitted entry hentry task output hmem
      exact ⟨source, hsource, sourceOf?_taskOutput.mpr ⟨task, hname, rfl⟩⟩

/-! ### Whole workflows -/

/-- The template that converts has one input, one output that is no artifact, and their own
    names. -/
structure Template.NamesConversion (t : Template) : Prop where
  parameters : t.inputParameters = []
  artifacts : t.inputArtifacts = [conversionInput]
  files : ∃ file, t.inputFiles = [file]
  outputs : t.outputArtifacts = []

/-- **Whatever a template is made of**, its names are kept apart as far as their safe forms are. -/
theorem PipelineMade.keepsNames {w : Workflow} {root : Blueprint} (h : PipelineMade P s c w root)
    (hdiffer : c.Throughout Component.NamesDiffer) :
    ∀ entry ∈ w.templates, entry.2.NamesConversion ∨
      ∃ path here, c.at? path = some here ∧ KeepsNames s here.component entry.2 := by
  intro entry hentry
  -- The template of conversions has names of its own; all others come from the pipeline.
  rcases h.templates entry hentry with hconversion | ⟨path, here, blueprint, hmakes, heq⟩
  · have houtline := conversionTemplate_outline hconversion
    cases htemplate : entry.2 with
    | container | dag =>
      rw [htemplate] at houtline
      cases houtline
    | conversion input output launch =>
      rw [htemplate] at houtline
      obtain ⟨hinput, -⟩ := Outline.conversion.inj houtline
      exact .inl ⟨rfl, congrArg ([·]) hinput, ⟨input, rfl⟩, rfl⟩
  · obtain ⟨kinds, templates, templates', hvisits, ht, hyields, -⟩ := hmakes.exists_made
    have hhere := (hdiffer.at? hvisits.place).self
    refine .inr ⟨path, here, hvisits.place, ?_⟩
    rw [heq]
    cases himpl : here.component.implementation with
    | container container =>
      exact keepsNames_of_container himpl (container_runs himpl hyields).2 hhere
    | graph g => exact keepsNames_of_graph himpl hvisits ht hyields hhere

/-- **Names are kept apart in workflows as far as their safe forms are.**  In every template of
    whatever is loaded the inputs and outputs are listed under the safe forms of different names,
    files have different paths if they have different names, and references to outputs of tasks
    tell the tasks apart, and outputs by their safe forms. -/
theorem compile_keeps_names {v : Value} {context : Context} {arguments : Keyed Value} {w : Workflow}
    (hloaded : Component.ofValue v = .ok c)
    (hcompiled : (compile context c arguments).result = .ok w) :
    ∃ s, context.settings = .ok s ∧ ∀ entry ∈ w.templates, entry.2.NamesConversion ∨
      ∃ path here, c.at? path = some here ∧ KeepsNames s here.component entry.2 := by
  obtain ⟨s, root, hs, hmade⟩ := compile_made (Recorded.yields_of_result hcompiled)
  exact ⟨s, hs, hmade.keepsNames (namesDiffer_ofValue hloaded)⟩

/-! ### Names with one safe form -/

/-- Inputs or outputs that have a name each and nothing else. -/
def namesValue (names : List String) : Value :=
  .list (names.map fun name => .ofFields [("name", .str name)])

/-- A component that a container implements, which uses inputs and outputs in some ways. -/
def usesValue (name : String) (inputs outputs : List String) (uses : List (String × String)) :
    Value :=
  .ofFields [
    ("name", .str name), ("inputs", namesValue inputs), ("outputs", namesValue outputs),
    ("implementation", .ofFields [("container", .ofFields [
      ("image", .str "a"),
        ("args", .list (uses.map fun use => .ofFields [(use.1, .str use.2)]))])])]

/-- A task with a component and arguments. -/
def taskValue (component : Value) (arguments : List (String × Value)) : Value :=
  .ofFields [
    ("componentRef", .ofFields [("spec", component)]), ("arguments", .ofFields arguments)]

/-- A pipeline of two tasks.  The first has two outputs and the second two pairs of inputs whose
    names have one safe form. -/
def dashedValue : Value :=
  let output (name : String) : Value :=
    .ofFields [("taskOutput", .ofFields [("taskId", .str "p"), ("outputName", .str name)])]
  .ofFields [
    ("name", .str "c"),
    ("implementation", .ofFields [("graph", .ofFields [("tasks", .ofFields [
      ("p", taskValue (usesValue "a" [] ["a b", "a-b"]
        [("outputPath", "a b"), ("outputPath", "a-b")]) []),
      ("q", taskValue (usesValue "b" ["a b", "a-b", "x y", "x-y"] []
        [("inputPath", "a b"), ("inputPath", "a-b"), ("inputValue", "x y"), ("inputValue", "x-y")])
        [("a b", output "a b"), ("a-b", output "a-b"), ("x y", .str "1"), ("x-y", .str "2")])])])])]

/-- The names and paths in a template, and what it refers to. -/
def Template.listed (t : Template) : List (List String) :=
  [t.inputParameters, t.inputArtifacts, t.inputFiles.map ArtifactFile.path, t.outputArtifacts,
    t.outputFiles.map ArtifactFile.path, t.references.map Reference.text]

/-- What is listed in the templates of this pipeline. -/
theorem dashedValue_listed :
    ((Component.ofValue dashedValue).toOption.bind fun c =>
      (compile sampleContext c []).result.toOption.map fun w =>
        w.templates.map fun entry => entry.2.listed) = some [
      [[], [], [], ["a-b", "a-b"], ["/o/a-b/d", "/o/a-b/d"], []],
      [["x-y", "x-y"], ["a-b", "a-b"], ["/i/a-b/d", "/i/a-b/d"], [], [], []],
      [[], [], [], [], [], ["1", "2", "\x7b\x7btasks.p.outputs.artifacts.a-b\x7d\x7d",
        "\x7b\x7btasks.p.outputs.artifacts.a-b\x7d\x7d"]]] := by
  decide +kernel

/-- This pipeline is loaded, and there is a workflow of it. -/
theorem dashedValue_compiles : ∃ c w, Component.ofValue dashedValue = .ok c ∧
    (compile sampleContext c []).result = .ok w := by
  obtain ⟨c, hc, h⟩ := Option.bind_eq_some_iff.mp dashedValue_listed
  obtain ⟨w, hw, -⟩ := Option.map_eq_some_iff.mp h
  exact ⟨c, w, toOption_eq_some.mp hc, toOption_eq_some.mp hw⟩

/-- The names in the workflow of this pipeline are kept apart as far as their safe forms are. -/
theorem dashedValue_keeps_names : ∃ c w, Component.ofValue dashedValue = .ok c ∧
    (compile sampleContext c []).result = .ok w ∧
    ∃ s, sampleContext.settings = .ok s ∧ ∀ entry ∈ w.templates, entry.2.NamesConversion ∨
      ∃ path here, c.at? path = some here ∧ KeepsNames s here.component entry.2 := by
  obtain ⟨c, w, hc, hw⟩ := dashedValue_compiles
  exact ⟨c, w, hc, hw, compile_keeps_names hc hw⟩

/-- **Names with one safe form are not kept apart**: the pipeline is loaded, and its workflow has
    templates with an input parameter, an input artifact or an output artifact that is there twice,
    and a graph that refers to different outputs of a task by one text. -/
theorem dashedValue_confuses : ∃ c w, Component.ofValue dashedValue = .ok c ∧
    (compile sampleContext c []).result = .ok w ∧
    (∃ entry ∈ w.templates, ¬ entry.2.inputParameters.Nodup ∧
      ¬ entry.2.inputArtifacts.Nodup ∧
      ¬ (entry.2.inputFiles.map ArtifactFile.path).Nodup) ∧
    (∃ entry ∈ w.templates, ¬ entry.2.outputArtifacts.Nodup ∧
      ¬ (entry.2.outputFiles.map ArtifactFile.path).Nodup) ∧
    ∃ entry ∈ w.templates, ¬ (entry.2.references.map Reference.text).Nodup := by
  obtain ⟨c, hc, h⟩ := Option.bind_eq_some_iff.mp dashedValue_listed
  obtain ⟨w, hw, htemplates⟩ := Option.map_eq_some_iff.mp h
  obtain ⟨p, rest, heq, hp, hrest⟩ := List.map_eq_cons_iff.mp htemplates
  obtain ⟨q, root, rfl, hq, hroot⟩ := List.map_eq_cons_iff.mp hrest
  obtain ⟨r, rfl, hr⟩ := List.map_eq_singleton_iff.mp hroot
  simp only [Template.listed, List.cons.injEq, and_true] at hp hq hr
  refine ⟨c, w, toOption_eq_some.mp hc, toOption_eq_some.mp hw, ?_, ?_, ?_⟩
  · refine ⟨q, by simp [heq], ?_⟩
    rw [hq.1, hq.2.1, hq.2.2.1]
    decide
  · refine ⟨p, by simp [heq], ?_⟩
    rw [hp.2.2.2.1, hp.2.2.2.2.1]
    decide
  · refine ⟨r, by simp [heq], ?_⟩
    rw [hr.2.2.2.2.2]
    decide

end PipelineCompiler.Argo
