import PipelineCompiler.Proofs.Argo.Made
import PipelineCompiler.Proofs.Argo.Verdict
import PipelineCompiler.Proofs.Json.Held

namespace PipelineCompiler.Argo

/-!
# Whatever is compiled is in order

What is known of a component because something was made of it, read off the run.

* `Run.Task.used`, `Run.Tasks.used` — the inputs of a graph that its tasks use are those that they
  need;
* `blueprint_needs` — the blueprint of a component reads what the component needs;
* `Makes.writesPlainly` — what gets into its template is plain, because the template has a digest;
* `compile_given` — what a whole pipeline needs is given.
-/

open Text

variable {P : String → Prop} {s : Settings} {c : Component} {d d' : Draft}

/-! ### Inputs that are used -/

/-- A conversion uses nothing else. -/
theorem Run.Conversion.used {source : Reference} {name : String}
    (h : Run.Conversion P s d source name d') : d'.used = d.used := by
  obtain ⟨_, _, _, _, -, -, -, rfl⟩ := h.exists_interned
  rfl

/-- The binding of an input that is used as a parameter uses the input of the graph that it is
    bound to. -/
theorem Run.Value.used {argument : Argument} {reference : Reference}
    (h : Run.Value P s d argument reference d') :
    ∀ input, input ∈ d'.used ↔ input ∈ d.used ∨ argument.input? = some input := by
  intro input
  cases h with
  | constant => simp [Argument.input?]
  | input _ _ _ => rw [useParameter_used, Argument.input?, Option.some.injEq, eq_comm]
  | convertedInput _ _ converted =>
    rw [converted.used, useArtifact_used, Argument.input?, Option.some.injEq, eq_comm]
  | convertedOutput _ converted =>
    rw [converted.used]
    simp [Argument.input?]

/-- So does the binding of an input that is used as a file. -/
theorem Draft.BindsFile.used {argument : Argument} {reference : Reference}
    (h : d.BindsFile argument reference d') :
    ∀ input, input ∈ d'.used ↔ input ∈ d.used ∨ argument.input? = some input := by
  intro input
  cases h with
  | input _ _ _ => rw [useArtifact_used, Argument.input?, Option.some.injEq, eq_comm]
  | output => simp [Argument.input?]

/-- All bindings of a task use the inputs of the graph that they are bound to, and nothing is
    missing for them. -/
theorem Draft.BindsAll.used {binds : Draft → Argument → Reference → Draft → Prop}
    (hbinds : ∀ d argument reference d', binds d argument reference d' →
      ∀ input, input ∈ d'.used ↔ input ∈ d.used ∨ argument.input? = some input)
    {b : Binder} {names : List String} {bindings : List (String × Reference)}
    (h : Draft.BindsAll binds b d names bindings d') :
    (∀ name ∈ names, b.component.checkInput (Keyed.has b.arguments) name = .ok ()) ∧
      ∀ input, input ∈ d'.used ↔ input ∈ d.used ∨
        input ∈ inputsOf b.arguments names := by
  induction h with
  | nil => exact ⟨fun _ hname => (nomatch hname), fun input => by simp [inputsOf]⟩
  | cons _ first _ given ih =>
    obtain ⟨hgiven, hused⟩ := ih
    refine ⟨List.forall_mem_cons.mpr ⟨given, hgiven⟩, fun input => ?_⟩
    rw [hused input, hbinds _ _ _ _ first input, mem_inputsOf (c := b.component),
      mem_inputsOf (c := b.component), List.exists_mem_cons_iff, or_assoc]

/-- **A task uses what it needs**, if its blueprint reads what its component needs. -/
theorem Run.Task.used {id : String} {b : Binder} {blueprint : Blueprint}
    (h : Run.Task P s id b blueprint d d') {names : List String}
    (hreads : ∀ input, input ∈ blueprint.parameters ++ blueprint.artifacts ↔
      input ∈ names) :
    b.component.checkInputs (Keyed.has b.arguments) names = .ok () ∧
      ∀ input, input ∈ d'.used ↔ input ∈ d.used ∨
        input ∈ inputsOf b.arguments names := by
  cases h with
  | intro _ values files _ =>
    obtain ⟨hvalues, hused₁⟩ := values.used fun _ _ _ _ hbinds => hbinds.used
    obtain ⟨hfiles, hused₂⟩ := files.used fun _ _ _ _ hbinds => hbinds.used
    -- The two kinds of bindings are those of the blueprint, in this order.
    refine ⟨checkInputs_eq_ok.mpr fun name hname => ?_, fun input => ?_⟩
    · exact (List.mem_append.mp ((hreads name).mpr hname)).elim (hvalues name) (hfiles name)
    · refine (hused₂ input).trans ?_
      rw [hused₁ input, or_assoc]
      refine or_congr_right ?_
      simp only [mem_inputsOf (c := b.component), ← hreads, List.mem_append, or_and_right,
        exists_or]

/-- A component whose blueprint, if there is one, reads what it needs. -/
def ReadsNeeds (P : String → Prop) (s : Settings) (c : Component) : Prop :=
  ∀ arguments kinds path templates blueprint templates',
    (componentBlueprint s arguments kinds path templates c).Yields P (blueprint, templates') →
      ∃ names, c.needs arguments = .ok names ∧
        ∀ input, input ∈ blueprint.parameters ++ blueprint.artifacts ↔ input ∈ names

/-- **The tasks of a graph use what they need**, if this holds of each component. -/
theorem Run.Tasks.used {tasks : List (String × GraphTask)} {order : List String}
    (h : Run.Tasks P s tasks order d d')
    (hinner : ∀ entry ∈ tasks, ∀ inner, entry.2.reference.spec = some inner →
      ReadsNeeds P s inner) :
    ∃ used, checkAll (Keyed.mapValues GraphTask.needs tasks) order = .ok used ∧
      ∀ input, input ∈ d'.used ↔ input ∈ d.used ∨ input ∈ used := by
  -- By induction on the run: what a task needs has been given to it by then, and passes on what it
  -- reads.
  induction h with
  | nil => exact ⟨[], rfl, fun input => by simp⟩
  | @cons d d₁ d₂ id rest task component kinds blueprint templates found spec _
      made added _ ih =>
    obtain ⟨names, hnames, hreads⟩ :=
      hinner _ (Keyed.mem_of_find? found) component spec _ _ _ _ _ _ made
    obtain ⟨hgiven, hused₁⟩ := added.used hreads
    obtain ⟨others, hothers, hused₂⟩ := ih
    have hneeds : task.needs = .ok (inputsOf task.arguments names) :=
      (taskNeeds_eq_ok spec).mpr ⟨names, hnames, hgiven, rfl⟩
    have hfetch : Keyed.fetch (Keyed.mapValues GraphTask.needs tasks) id = .ok task.needs := by
      rw [fetch_eq_ok, Keyed.mapValues, Keyed.find?_map (fun _ => GraphTask.needs), found]
      rfl
    refine ⟨inputsOf task.arguments names ++ others, ?_, fun input => ?_⟩
    · rw [checkAll, hfetch, hneeds, hothers]
      rfl
    · rw [hused₂ input, hused₁ input, List.mem_append, or_assoc]
      rfl

/-- **The blueprint of a component reads what the component needs.** -/
theorem blueprint_needs (c : Component) : ReadsNeeds P s c := by
  -- By induction on components, with the list of what is read on the one side and the check on the
  -- other.
  induction c using Component.nesting with
  | container c container himpl =>
    intro arguments kinds path templates blueprint templates' hyields
    obtain ⟨-, hmade⟩ := container_runs himpl hyields
    obtain ⟨line, hline, hparameters, hartifacts, -⟩ := containerBlueprint_spec hmade
    have hagrees : Agree (.verdict False) _ _ (c.needs arguments) := needs_agrees accessors himpl
    obtain ⟨names, hnames, hsame, -⟩ := hagrees.exists_ok hline
    refine ⟨names, hnames, ?_⟩
    rw [hparameters, hartifacts]
    exact hsame
  | graph c g himpl ih =>
    intro arguments kinds path templates blueprint templates' hyields
    obtain ⟨order, scope, d, horder, hscope, hrun, -, hmade⟩ := graph_run himpl hyields
    obtain ⟨used, hchecked, hused⟩ := hrun.used ih
    obtain ⟨outputs, -, hmade⟩ := bind_eq_ok.mp hmade
    obtain rfl := pure_eq_ok.mp hmade
    refine ⟨used, ?_, fun input => ?_⟩
    · rw [needs_graph himpl, Graph.check, horder]
      exact hchecked
    · obtain ⟨names, a, -, rfl⟩ := start_eq hscope
      refine (hused input).trans ?_
      simp [Draft.used]

/-- So it is with everything in a pipeline that something was made of. -/
theorem Makes.needs {final : Keyed Template} {path : List String} {here : Placed}
    {blueprint : Blueprint} (h : Makes P s c final path here blueprint) :
    ∃ names, here.component.needs here.arguments = .ok names ∧
      ∀ input, input ∈ blueprint.parameters ++ blueprint.artifacts ↔ input ∈ names := by
  obtain ⟨_, _, _, -, -, hyields, -⟩ := h.exists_made
  exact blueprint_needs here.component _ _ _ _ _ _ hyields

/-! ### Texts in templates -/

/-- What a container is launched with is plain when all texts in its document are whole. -/
theorem launch_plain_of_holds {image : String} {line : CommandLine}
    (h : ∀ text, (containerDocument (Launch.ofCommandLine image line)).Holds text →
      Whole text) :
    (Launch.ofCommandLine image line).Plain := by
  -- Every text of a launch is under one of its fields, so each of the four goals names a field.
  have hfield : ∀ field ∈ (Launch.ofCommandLine image line).fields, ∀ text,
      field.2.Holds text → Whole text := fun field hmem text hheld =>
    h text (.ofFields (List.mem_cons_of_mem _ hmem) hheld)
  refine ⟨.str ?_, fun tokens htokens t ht => ?_, fun tokens htokens t ht => ?_,
    fun entry hentry => ?_⟩
  · exact hfield ("image", .str image) (by simp [Launch.fields, Launch.ofCommandLine]) _ .str
  · refine hfield ("command", .ofTexts tokens) ?_ t (.ofTexts ht)
    simp only [Launch.fields, List.mem_append, List.mem_map, Option.mem_toList]
    exact .inl (.inl (.inr ⟨tokens, htokens, rfl⟩))
  · refine hfield ("args", .ofTexts tokens) ?_ t (.ofTexts ht)
    simp only [Launch.fields, List.mem_append, List.mem_map, Option.mem_toList]
    exact .inl (.inr ⟨tokens, htokens, rfl⟩)
  · have hmem : ("env", Value.list (line.env.map Launch.envEntry)) ∈
        (Launch.ofCommandLine image line).fields := by
      have hne : line.env.isEmpty = false := List.isEmpty_eq_false_iff.mpr
        (List.ne_nil_of_mem hentry)
      simp [Launch.fields, Launch.ofCommandLine, hne]
    refine ⟨hfield _ hmem _ (.ofItems hentry ?_), hfield _ hmem _ (.ofItems hentry ?_)⟩
    · exact .ofFields List.mem_cons_self .str
    · exact .ofFields (List.mem_cons_of_mem _ List.mem_cons_self) .str

/-- The texts that the parameters of a task are bound to are held by the template around. -/
theorem holds_of_parameter {tasks : Keyed DagTask} {name template : String}
    {parameters artifacts : List (String × Reference)}
    (htask : (name, DagTask.step template parameters artifacts) ∈ tasks)
    {binding : String × Reference} (hbinding : binding ∈ parameters) :
    (Value.ofFields [listing "tasks" (tasks.map DagTask.toValue)]).Holds binding.2.text := by
  have hbound : (boundTo "value" binding).Holds binding.2.text :=
    .ofFields (List.mem_cons_of_mem _ List.mem_cons_self) .str
  have harguments : (Value.ofFields (DagTask.step template parameters artifacts).arguments).Holds
      binding.2.text := .ofFields List.mem_cons_self (.ofItems hbinding hbound)
  have hmem : ("arguments",
    Value.ofFields (DagTask.step template parameters artifacts).arguments) ∈
      ("name", Value.str name) :: (DagTask.step template parameters artifacts).fields :=
    List.mem_cons_of_mem _ (List.mem_append_left _ (List.mem_cons_of_mem _ List.mem_cons_self))
  exact .ofFields List.mem_cons_self (.ofItems htask (.ofFields hmem harguments))

/-- **What gets into a template that has a digest is plain.** -/
theorem Makes.writesPlainly {final : Keyed Template} {path : List String} {here : Placed}
    {blueprint : Blueprint} (h : Makes P s c final path here blueprint) {found : String}
    (hfound : structuralText (some "name") blueprint.template.record = .ok found) :
    WritesPlainly here := by
  have hwhole : blueprint.template.body.1 ≠ "name" → ∀ text,
      blueprint.template.body.2.Holds text → Whole text := fun hne text hheld =>
    whole_of_structuralText hfound (by simp [Template.fields]) hne hheld
  constructor
  · intro container himpl line hline
    obtain ⟨_, _, _, -, -, hyields, -⟩ := h.exists_made
    obtain ⟨line', hline', hmade⟩ := bind_eq_ok.mp (container_runs himpl hyields).2
    obtain ⟨artifacts, -, hmade⟩ := bind_eq_ok.mp hmade
    obtain ⟨outputs, -, hmade⟩ := bind_eq_ok.mp hmade
    obtain rfl := pure_eq_ok.mp hmade
    rw [Component.commandLine, himpl] at hline
    obtain rfl := Except.ok.inj (hline'.symm.trans hline)
    exact launch_plain_of_holds (hwhole (by simp [Template.body]))
  · intro g himpl id task component htask hspec names hnames name hname text htext
    obtain ⟨order, d, hgraph⟩ := h.graph himpl
    obtain ⟨outputs, -, htemplate⟩ := hgraph.template
    obtain ⟨component', inner, place, hspec', hmade, hadded⟩ := hgraph.tasks id task htask
    obtain rfl := Option.some.inj (hspec.symm.trans hspec')
    obtain ⟨names', hnames', hreads⟩ := hmade.needs
    obtain rfl := Except.ok.inj (hnames.symm.trans hnames')
    obtain ⟨_, template, _, parameters, artifacts, -, hstep, -, -, hvalues, hfiles⟩ :=
      hadded.exists_step
    rw [htemplate] at hwhole
    rcases List.mem_append.mp ((hreads name).mpr hname) with hread | hread
    -- the text is written into the binding
    · obtain ⟨binding, hbinding, -, -, hserves⟩ := exists_right_of_mem hvalues hread
      have hheld := holds_of_parameter (Keyed.mem_of_find? hstep) hbinding
      dsimp only at hserves
      rw [htext] at hserves
      generalize binding.2 = reference at hserves hheld
      cases hserves with
      | constant => exact hwhole (by simp [Template.body]) _ hheld
      | converted _ converts => cases converts
    -- there is no file for it
    · obtain ⟨binding, -, -, -, hbinds⟩ := exists_right_of_mem hfiles hread
      dsimp only at hbinds
      rw [htext] at hbinds
      cases hbinds

/-! ### Pipelines -/

/-- **Everything in a pipeline that has a workflow is plain**, as far as it gets into it. -/
theorem PipelineMade.plain {w : Workflow} {root : Blueprint} (h : PipelineMade P s c w root)
    (hnamed : c.Throughout fun inner => IsStem inner.name) : PlainThroughout c := by
  intro path here hhere
  obtain ⟨blueprint, hmakes, ⟨found, hfound⟩, -⟩ := h.exists_makes hhere
  exact ⟨(hnamed.at? hhere).self, hmakes.writesPlainly hfound⟩

/-- **A pipeline that has a workflow is given what it needs.** -/
theorem compile_given {context : Context} {arguments : Keyed Value} {w : Workflow}
    (hyields : (compile context c arguments).Yields P w) :
    ∃ s root names, context.settings = .ok s ∧ PipelineMade P s c w root ∧
      c.needs (rootArguments c) = .ok names ∧
      c.checkInputs (Keyed.has (c.givenTexts arguments)) names = .ok () ∧
      (arguments.all fun entry => entry.2.isShown) = true := by
  obtain ⟨s, root, hs, hmade⟩ := compile_made hyields
  obtain ⟨s', blueprint, templates, templates', hs', hblueprint, -, -, texts, htexts, -, -,
    hgiven⟩ := compile_interned hyields
  obtain rfl := Except.ok.inj (hs.symm.trans hs')
  obtain ⟨names, hnames, hreads⟩ := blueprint_needs c _ _ _ _ _ _ hblueprint
  obtain ⟨rfl, hshown⟩ := rootTexts_spec htexts
  exact ⟨s, root, names, hs, hmade, hnames,
    checkInputs_eq_ok.mpr fun name hname => hgiven name ((hreads name).mpr hname), hshown⟩

end PipelineCompiler.Argo
