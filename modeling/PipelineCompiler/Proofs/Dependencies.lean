import PipelineCompiler.Proofs.Argo.Dependencies
import PipelineCompiler.Proofs.Argo.Made
import PipelineCompiler.Proofs.Component.Flat
import PipelineCompiler.Proofs.Vertex.Closure

namespace PipelineCompiler

/-!
# Both targets make tasks wait alike

One target finds the dependencies of a task in the texts of its bindings and has conversions between
tasks, the other one reads them off its links.  Where all tasks of a graph are containers, both come
to the same.

* `Graph.Feeds` — an input that a task uses is bound to an output of another task;
* `Argo.Depends`, `Vertex.Depends` — one task depends on another, in the documents;
* `Argo.PipelineMade.depends_iff`, `Vertex.PipelineCompiled.depends_iff` — a task depends on those
  that feed it, and on no others;
* `targets_wait_alike` — so it is for both targets.
-/

/-! ### What the graph says -/

/-- All tasks of a graph are containers. -/
def Graph.IsOfContainers (g : Graph) : Prop :=
  ∀ id task component, g.task? id = some task → task.reference.spec = some component →
    ∃ container, component.implementation = .container container

/-- Some input that the command line of a task uses is bound to an output of another task. -/
def Graph.Feeds (g : Graph) (producer consumer : String) : Prop :=
  ∃ task component line, g.task? consumer = some task ∧ task.reference.spec = some component ∧
    component.commandLine task.arguments .plain = .ok line ∧
      ∃ input ∈ line.inputs, ∃ source,
      Keyed.find? task.arguments input = some (.taskOutput source) ∧ source.task = producer

/-- An output of a task counts for an input when it is given for it. -/
theorem argumentFor_output {c : Component} {arguments : Keyed Argument} {name : String}
    {source : TaskOutput} : c.argumentFor arguments name = .taskOutput source ↔
      Keyed.find? arguments name = some (.taskOutput source) := by
  unfold Component.argumentFor
  cases Keyed.find? arguments name with
  | none => simp
  | some argument => simp

/-- What a task gets something from has a place in the order of the graph. -/
theorem Planned.mem_of_argument {g : Graph} {inputs order : List String}
    (h : Planned g inputs order) {id : String} {task : GraphTask} (htask : g.task? id = some task)
    {c : Component} {name : String} {source : TaskOutput}
    (hargument : c.argumentFor task.arguments name = .taskOutput source) :
    source.task ∈ order := by
  obtain ⟨entry, hentry, heq⟩ := argumentFor_mem hargument fun _ he => nomatch he
  obtain ⟨_, _, hfound, -⟩ := h.output htask hentry heq
  exact (h.mem_iff _).mpr (Keyed.mem_keys_of_find? hfound)

section Feeds

variable {g : Graph} {producer consumer : String}

/-- A task that feeds another one is among its producers. -/
theorem Graph.Feeds.mem_dependencies (h : g.Feeds producer consumer) :
    ∃ producers, Keyed.find? g.dependencies consumer = some producers ∧
      producer ∈ producers := by
  obtain ⟨task, component, line, htask, -, -, input, -, source, hfind, rfl⟩ := h
  refine ⟨task.producers, ?_, mem_producers (Keyed.mem_of_find? hfind) rfl⟩
  rw [find?_dependencies, show Keyed.find? g.tasks consumer = some task from htask]
  rfl

/-- **Whatever the target**, a task is fed by those whose outputs count for inputs that its command
    line uses. -/
theorem feeds_iff {task : GraphTask} {component : Component} {accessors : Accessors}
    {parameters : Option (List String)} {line : CommandLine}
    (htask : g.task? consumer = some task) (hspec : task.reference.spec = some component)
    (hline : component.commandLine task.arguments accessors parameters = .ok line) :
    g.Feeds producer consumer ↔ ∃ input ∈ line.inputs, ∃ source,
      component.argumentFor task.arguments input = .taskOutput source ∧
        source.task = producer := by
  cases himpl : component.implementation with
  | graph => rw [Component.commandLine, himpl] at hline; cases hline
  | container container =>
    rw [Component.commandLine, himpl] at hline
    -- how inputs are put into the command line does not matter for which of them it uses
    have hagree : Agree (.verdict False)
        (fun line plain => ∀ input, input ∈ line.inputs ↔ input ∈ plain.inputs)
        (Expander.commandLine { component, arguments := task.arguments, accessors, parameters }
          container)
        (Expander.commandLine { component, arguments := task.arguments, accessors := .plain }
          container) := by
      refine commandLine_inputs ?_ ?_ container
      · rfl
      · rfl
    obtain ⟨plain, hplain, hinputs⟩ := hagree.exists_ok hline
    constructor
    · rintro ⟨task', component', line', htask', hspec', hline', input, hinput,
        source, hfind, heq⟩
      obtain rfl := Option.some.inj (htask.symm.trans htask')
      obtain rfl := Option.some.inj (hspec.symm.trans hspec')
      rw [Component.commandLine, himpl] at hline'
      obtain rfl := Except.ok.inj (hplain.symm.trans hline')
      exact ⟨input, (hinputs input).mpr hinput, source, argumentFor_output.mpr hfind, heq⟩
    · rintro ⟨input, hinput, source, harg, heq⟩
      refine ⟨task, component, plain, htask, hspec, ?_, input, (hinputs input).mp hinput, source,
        argumentFor_output.mp harg, heq⟩
      rw [Component.commandLine, himpl]
      exact hplain

end Feeds

/-! ### Workflows -/

namespace Argo

/-- A task of a workflow converts: its template does. -/
def DagTask.Converts (templates : Keyed Template) (task : DagTask) : Prop :=
  ∃ input output launch,
    Keyed.find? templates task.template = some (.conversion input output launch)

/-- In a graph of a workflow, whose tasks have some names, one task depends on another: it waits for
    it, or for a conversion that waits for it. -/
def Depends (templates : Keyed Template) (names : Keyed String) (tasks : Keyed DagTask)
    (consumer producer : String) : Prop :=
  ∃ name other, Keyed.find? names consumer = some name ∧
    Keyed.find? names producer = some other ∧
    (WaitsFor tasks name other ∨ ∃ between task, Keyed.find? tasks between = some task ∧
      task.Converts templates ∧ WaitsFor tasks name between ∧ WaitsFor tasks between other)

variable {templates : Keyed Template} {names : Keyed String} {tasks tasks' : Keyed DagTask}
  {name other : String}

/-- Tasks with the same outlines wait alike. -/
theorem WaitsFor.of_outlines (h : outlines tasks = outlines tasks')
    (hwaits : WaitsFor tasks name other) : WaitsFor tasks' name other := by
  obtain ⟨task, hfind, hmem⟩ := hwaits
  obtain ⟨task', hfind', heq⟩ := find?_of_outlines h hfind
  exact ⟨task', hfind', dependencies_of_outline heq ▸ hmem⟩

/-- And they depend on each other alike. -/
theorem Depends.of_outlines (h : outlines tasks = outlines tasks') {consumer producer : String}
    (hdepends : Depends templates names tasks consumer producer) :
    Depends templates names tasks' consumer producer := by
  obtain ⟨name, other, hname, hother, hwaits⟩ := hdepends
  refine ⟨name, other, hname, hother, hwaits.imp (·.of_outlines h) ?_⟩
  rintro ⟨between, task, hfind, ⟨input, output, launch, hconverts⟩, hfirst, hsecond⟩
  obtain ⟨task', hfind', heq⟩ := find?_of_outlines h hfind
  have htemplate : task'.template = task.template := congrArg TaskOutline.template heq
  exact ⟨between, task', hfind', ⟨input, output, launch, htemplate ▸ hconverts⟩,
    hfirst.of_outlines h, hsecond.of_outlines h⟩

/-! #### What bindings mention -/

variable {P : String → Prop} {s : Settings} {c : Component} {d : Draft} {order : List String}
  {argument : Argument} {reference : Reference}

/-- An argument is an output of the task that has a name. -/
def GetsFrom (names : Keyed String) (argument : Argument) (name : String) : Prop :=
  ∃ source, argument = .taskOutput source ∧ Keyed.find? names source.task = some name

/-- What an argument refers to as an artifact mentions the task that the argument gets something
    from, and no others. -/
theorem mentions_source (hnamed : d.Named P order)
    (hgrounded : ∀ source, argument = .taskOutput source → source.task ∈ order)
    (hsource : sourceOf? d.scope.taskNames argument = some reference) :
    name ∈ scanTasks 0 reference.text.toList ↔ GetsFrom d.scope.taskNames argument name := by
  -- A literal is no artifact, and an input of the graph mentions no task.
  cases argument with
  | literal => cases hsource
  | graphInput input type =>
    obtain rfl := Option.some.inj hsource
    have hplain : (Reference.artifact (sanitizeIoName input)).IsPlain :=
      sanitizeIoName_no_brace input
    rw [scanTasks_text hplain]
    constructor
    · exact fun h => nomatch h
    · rintro ⟨_, heq, -⟩
      cases heq
  | taskOutput source =>
    obtain ⟨task, htask, rfl⟩ := Option.map_eq_some_iff.mp hsource
    have hplain := (hnamed.plain (hnamed.found (hgrounded source rfl) htask)
      (sanitizeIoName_no_brace source.output)).1
    rw [scanTasks_text hplain, Reference.tasks, List.mem_singleton]
    constructor
    · rintro rfl
      exact ⟨source, rfl, htask⟩
    · rintro ⟨_, heq, hname⟩
      obtain rfl := Argument.taskOutput.inj heq
      exact Option.some.inj (hname.symm.trans htask)

/-- What is bound as a file is what the argument refers to. -/
theorem BindsFile.sourceOf (h : BindsFile d argument reference) :
    sourceOf? d.scope.taskNames argument = some reference := by
  cases h with
  | input => rfl
  | output found => rw [sourceOf?, found]; rfl

/-- The name of what conversions put out has no braces. -/
theorem conversionOutput_no_brace : '\x7b' ∉ conversionOutput.toList := by decide

/-- What the binding of an input that is used as a parameter mentions is a conversion of what its
    argument refers to, when no text is given that mentions a task. -/
theorem Serves.mentions (h : Serves P d argument reference) (hnamed : d.Named P order)
    (hnone : ∀ text, argument = .literal text → ¬ Mentions text name)
    (hmem : name ∈ scanTasks 0 reference.text.toList) :
    ∃ template found source, Keyed.find? d.scope.tasks.entries name
        = some (.conversion template found) ∧
      sourceOf? d.scope.taskNames argument = some source ∧
      (Separates P → found.text = source.text) := by
  -- A constant mentions nothing by assumption, an input never does, and a conversion mentions
  -- itself.
  cases h with
  | constant text => exact absurd (mentions_of_mem_scanTasks hmem) (hnone text rfl)
  | @input input =>
    have hplain : (Reference.parameter (sanitizeIoName input)).IsPlain :=
      sanitizeIoName_no_brace input
    rw [scanTasks_text hplain] at hmem
    cases hmem
  | converted kind converts task same =>
    obtain ⟨-, hplain⟩ := hnamed.plain (Keyed.mem_keys_of_find? task) conversionOutput_no_brace
    rw [scanTasks_text hplain, Reference.tasks, List.mem_singleton] at hmem
    exact ⟨_, _, _, hmem ▸ task, converts, same⟩

/-- An output of a task that is used as a parameter is converted, and the binding mentions the
    conversion. -/
theorem Serves.converted_output {source : TaskOutput}
    (h : Serves P d (.taskOutput source) reference)
    (hnamed : d.Named P order) :
    ∃ conversion template found target, conversion ∈ scanTasks 0 reference.text.toList ∧
      Keyed.find? d.scope.tasks.entries conversion = some (.conversion template found) ∧
      sourceOf? d.scope.taskNames (.taskOutput source) = some target ∧
      (Separates P → found.text = target.text) := by
  cases h with
  | @converted _ conversion template found target kind converts task same =>
    obtain ⟨-, hplain⟩ := hnamed.plain (Keyed.mem_keys_of_find? task) conversionOutput_no_brace
    refine ⟨conversion, template, found, target, ?_, task, converts, same⟩
    rw [scanTasks_text hplain]
    exact List.mem_cons_self

/-- What a conversion waits for is what is mentioned in what it converts. -/
theorem mem_dependencies_conversion {template : String} {source : Reference} :
    name ∈ (DagTask.conversion template source).dependencies ↔
      name ∈ scanTasks 0 source.text.toList := by
  rw [mem_dependencies]
  simp [DagTask.references, DagTask.parameters, DagTask.artifacts]

/-- What a task waits for is what is mentioned in one of its bindings. -/
theorem mem_dependencies_step {template : String}
    {parameters artifacts : List (String × Reference)} :
    name ∈ (DagTask.step template parameters artifacts).dependencies ↔
      (∃ binding ∈ parameters, name ∈ scanTasks 0 binding.2.text.toList) ∨
        ∃ binding ∈ artifacts, name ∈ scanTasks 0 binding.2.text.toList := by
  rw [mem_dependencies]
  simp only [DagTask.references, DagTask.parameters, DagTask.artifacts, List.mem_map,
    List.mem_append]
  constructor
  · rintro ⟨reference, ⟨binding, hbinding, rfl⟩, hmem⟩
    exact hbinding.imp (fun h => ⟨binding, h, hmem⟩) fun h => ⟨binding, h, hmem⟩
  · rintro (⟨binding, hbinding, hmem⟩ | ⟨binding, hbinding, hmem⟩)
    · exact ⟨_, ⟨binding, .inl hbinding, rfl⟩, hmem⟩
    · exact ⟨_, ⟨binding, .inr hbinding, rfl⟩, hmem⟩

/-! #### Graphs of containers -/

section Graphs

variable {final : Keyed Template} {path : List String} {around : Placed} {g : Graph}
  {blueprint : Blueprint}

/-- A task of a graph that is a container: it binds the inputs that its command line uses. -/
structure ContainerBound (P : String → Prop) (final : Keyed Template) (d : Draft)
    (component : Component) (arguments : Keyed Argument) (line : CommandLine) (task : DagTask) :
    Prop where
  commandLine : component.commandLine arguments accessors = .ok line
  bound : ∃ template parameters artifacts place, task = .step template parameters artifacts ∧
    BoundBy { component, arguments, place } (Serves P d) line.valueInputs parameters ∧
    BoundBy { component, arguments, place } (BindsFile d) line.pathInputs artifacts
  /-- It is no conversion. -/
  runs : ¬ task.Converts final

/-- **Every task under a name of the graph** is there, as a container. -/
theorem GraphMade.container (h : GraphMade P s c final path around g order d blueprint)
    (hsep : Separates P) (hcontainers : g.IsOfContainers) {id : String}
    (hname : Keyed.find? d.scope.taskNames id = some name)
    (hkey : name ∈ Keyed.keys d.scope.tasks.entries) :
    ∃ task component line made, g.task? id = some task ∧
      task.reference.spec = some component ∧
      Keyed.find? d.scope.tasks.entries name = some made ∧
      ContainerBound P final d component task.arguments line made := by
  -- A name in use is reserved for a task of the order, and not kept for a conversion.
  have hid : id ∈ order := by
    rcases h.named.defined name hkey with hkept | ⟨other, hmem, hother⟩
    · exact absurd hkept (h.named.reserved id name hname).2
    · exact h.named.distinct id other name hname hother ▸ hmem
  obtain ⟨task, htask⟩ :=
    Keyed.exists_find?_of_mem_keys (((order_planned h.ordered).mem_iff id).mp hid)
  obtain ⟨component, inner, place, hspec, hmakes, hadded⟩ := h.tasks id task htask
  obtain ⟨name', template, t, parameters, artifacts, hname', hstep, hfind, hsame,
    hvalues, hfiles⟩ :=
    hadded.exists_step
  obtain rfl := Option.some.inj (hname.symm.trans hname')
  obtain ⟨container, himpl⟩ := hcontainers id task component htask hspec
  obtain ⟨line, hline, hparameters, hartifacts⟩ := hmakes.container himpl
  refine ⟨task, component, line, _, htask, hspec, hstep, hline,
    ⟨template, parameters, artifacts, place, rfl, hparameters ▸ hvalues,
      hartifacts ▸ hfiles⟩, ?_⟩
  rintro ⟨input, output, launch, hconverts⟩
  obtain rfl := Option.some.inj ((h.within _ _ hfind).symm.trans hconverts)
  obtain ⟨_, _, _, -, -, hyields, -⟩ := hmakes.exists_made
  obtain ⟨_, -, -, -, houtline⟩ := containerBlueprint_spec (container_runs himpl hyields).2
  have hcontainer := (outline_of_sameRecord (hsame hsep)).trans houtline
  cases hcontainer

/-- Conversions convert. -/
theorem GraphMade.converts (h : GraphMade P s c final path around g order d blueprint)
    (hsep : Separates P) {template : String} {source : Reference}
    (hfind : Keyed.find? d.scope.tasks.entries name = some (.conversion template source)) :
    (DagTask.conversion template source).Converts final := by
  obtain ⟨t, u, ht, hu, hsame⟩ :=
    h.tidy.conversions _ (Keyed.mem_of_find? hfind) template source rfl
  obtain ⟨input, output, launch, rfl⟩ := conversion_of_sameTemplate ht (hsame hsep)
  exact ⟨input, output, launch, h.within _ _ hu⟩

/-- What a container waits for: a task that it gets something from, or a conversion of such a
    thing. -/
theorem ContainerBound.waits {component : Component} {arguments : Keyed Argument}
    {line : CommandLine} {made : DagTask}
    (h : ContainerBound P final d component arguments line made) (hsep : Separates P)
    (hnamed : d.Named P order)
    (hgrounded : ∀ input source, component.argumentFor arguments input = .taskOutput source →
      source.task ∈ order)
    (hnone : ∀ input ∈ component.inputNames, ∀ text,
      component.argumentFor arguments input = .literal text → ∀ name, ¬ Mentions text name)
    (hmem : name ∈ made.dependencies) :
    ∃ input ∈ line.inputs,
      GetsFrom d.scope.taskNames (component.argumentFor arguments input) name ∨
      ∃ template found,
        Keyed.find? d.scope.tasks.entries name = some (.conversion template found) ∧
        ∀ other, other ∈ scanTasks 0 found.text.toList ↔
          GetsFrom d.scope.taskNames (component.argumentFor arguments input) other := by
  obtain ⟨template, parameters, artifacts, place, rfl, hvalues, hfiles⟩ := h.bound
  -- parameters mention conversions, and artifacts the tasks themselves
  rcases mem_dependencies_step.mp hmem with ⟨binding, hbinding, hscan⟩ | ⟨binding,
    hbinding, hscan⟩
  · obtain ⟨input, hinput, hdeclared, -, hserves⟩ := exists_left_of_mem hvalues hbinding
    obtain ⟨template', found, source, hfind, hsource, hsame⟩ :=
      hserves.mentions hnamed (fun text heq => hnone input hdeclared text heq _) hscan
    refine ⟨input, List.mem_append_left _ hinput,
      .inr ⟨template', found, hfind, fun other => ?_⟩⟩
    rw [hsame hsep]
    exact mentions_source hnamed (hgrounded input) hsource
  · obtain ⟨input, hinput, -, -, hbinds⟩ := exists_left_of_mem hfiles hbinding
    exact ⟨input, List.mem_append_right _ hinput,
      .inl ((mentions_source hnamed (hgrounded input) hbinds.sourceOf).mp hscan)⟩

/-- A container waits for a task that it gets something from, or for a conversion of this. -/
theorem ContainerBound.awaits {component : Component} {arguments : Keyed Argument}
    {line : CommandLine} {made : DagTask}
    (h : ContainerBound P final d component arguments line made) (hsep : Separates P)
    (hnamed : d.Named P order) {input : String} (hinput : input ∈ line.inputs)
    {source : TaskOutput} (hargument : component.argumentFor arguments input = .taskOutput source)
    (hplaced : source.task ∈ order)
    (hother : Keyed.find? d.scope.taskNames source.task = some other) :
    other ∈ made.dependencies ∨ ∃ between template found, between ∈ made.dependencies ∧
      Keyed.find? d.scope.tasks.entries between = some (.conversion template found) ∧
      other ∈ scanTasks 0 found.text.toList := by
  obtain ⟨template, parameters, artifacts, place, rfl, hvalues, hfiles⟩ := h.bound
  have hgrounded : ∀ source', Argument.taskOutput source = .taskOutput source' →
      source'.task ∈ order := fun source' heq => Argument.taskOutput.inj heq ▸ hplaced
  have hgets : GetsFrom d.scope.taskNames (.taskOutput source) other := ⟨source, rfl, hother⟩
  -- A value comes out of a conversion, which waits for the task in turn; a file comes from the task
  -- itself.
  rcases List.mem_append.mp hinput with hinput | hinput
  · obtain ⟨binding, hbinding, -, -, hserves⟩ := exists_right_of_mem hvalues hinput
    have hserves : Serves P d (component.argumentFor arguments input) binding.2 := hserves
    rw [hargument] at hserves
    obtain ⟨conversion, template', found, target, hscan, hfind, htarget, hsame⟩ :=
      hserves.converted_output hnamed
    refine .inr ⟨conversion, template', found,
      mem_dependencies_step.mpr (.inl ⟨_, hbinding, hscan⟩), hfind, ?_⟩
    rw [hsame hsep]
    exact (mentions_source hnamed hgrounded htarget).mpr hgets
  · obtain ⟨binding, hbinding, -, -, hbinds⟩ := exists_right_of_mem hfiles hinput
    have hbinds : BindsFile d (component.argumentFor arguments input) binding.2 := hbinds
    rw [hargument] at hbinds
    exact .inl (mem_dependencies_step.mpr (.inr ⟨_, hbinding,
      (mentions_source hnamed hgrounded hbinds.sourceOf).mpr hgets⟩))

/-- A task of a workflow depends on no others than those that feed it, when no text is written down
    that mentions a task. -/
theorem GraphMade.feeds_of_depends (h : GraphMade P s c final path around g order d blueprint)
    (hsep : Separates P) (hgraph : around.component.implementation = .graph g)
    (hcontainers : g.IsOfContainers)
    (hnone : ∀ text name, around.component.Writes text → ¬ Mentions text name)
    {consumer producer : String}
    (hdepends : Depends final d.scope.taskNames d.scope.tasks.entries consumer producer) :
    g.Feeds producer consumer := by
  have hplanned := order_planned h.ordered
  obtain ⟨name, other, hname, hother, hwaits⟩ := hdepends
  obtain ⟨next, ⟨made, hmade, hmem⟩, hnext⟩ : ∃ next,
    WaitsFor d.scope.tasks.entries name next ∧
      (next = other ∨ ∃ task, Keyed.find? d.scope.tasks.entries next = some task ∧
        task.Converts final ∧ WaitsFor d.scope.tasks.entries next other) := by
    rcases hwaits with hwaits | ⟨between, task, hfind, hconverts, hfirst, hsecond⟩
    · exact ⟨other, hwaits, .inl rfl⟩
    · exact ⟨between, hfirst, .inr ⟨task, hfind, hconverts, hsecond⟩⟩
  obtain ⟨task, component, line, made', htask, hspec, hmade', hbound⟩ :=
    h.container hsep hcontainers hname (Keyed.mem_keys_of_find? hmade)
  obtain rfl := Option.some.inj (hmade.symm.trans hmade')
  obtain ⟨input, hinput, hcase⟩ := hbound.waits hsep h.named
    (fun _ _ => hplanned.mem_of_argument htask)
    (fun input hdeclared text heq name =>
      hnone text name (writes_of_task hgraph htask hspec hdeclared heq)) hmem
  have hfeeds : GetsFrom d.scope.taskNames (component.argumentFor task.arguments input) other →
      g.Feeds producer consumer := by
    rintro ⟨source, hargument, hsource⟩
    exact (feeds_iff htask hspec hbound.commandLine).mpr
      ⟨input, hinput, source, hargument, h.named.distinct _ _ _ hsource hother⟩
  -- a name of the graph is never that of a conversion
  rcases hcase with hgets | ⟨template, found, hfind, hgets⟩
  · rcases hnext with rfl | ⟨between, hbetween, hconverts, -⟩
    · exact hfeeds hgets
    · obtain ⟨source, -, hsource⟩ := hgets
      obtain ⟨_, _, _, made', -, -, hmade', hbound'⟩ :=
        h.container hsep hcontainers hsource (Keyed.mem_keys_of_find? hbetween)
      obtain rfl := Option.some.inj (hbetween.symm.trans hmade')
      exact absurd hconverts hbound'.runs
  · rcases hnext with rfl | ⟨between, hbetween, -, between', hfind', hmem'⟩
    · obtain ⟨_, _, _, made', -, -, hmade', hbound'⟩ :=
        h.container hsep hcontainers hother (Keyed.mem_keys_of_find? hfind)
      obtain rfl := Option.some.inj (hfind.symm.trans hmade')
      exact absurd (h.converts hsep hfind) hbound'.runs
    · obtain rfl := Option.some.inj (hfind.symm.trans hfind')
      exact hfeeds ((hgets other).mp (mem_dependencies_conversion.mp hmem'))

/-- A task of a workflow depends on those that feed it. -/
theorem GraphMade.depends_of_feeds (h : GraphMade P s c final path around g order d blueprint)
    (hsep : Separates P) (hcontainers : g.IsOfContainers) {consumer producer : String}
    (hfeeds : g.Feeds producer consumer) :
    Depends final d.scope.taskNames d.scope.tasks.entries consumer producer := by
  have hplanned := order_planned h.ordered
  obtain ⟨task, component, _, htask, hspec, -⟩ := id hfeeds
  obtain ⟨name, hname, hkey⟩ := h.named.placed consumer
    ((hplanned.mem_iff _).mpr (Keyed.mem_keys_of_find? htask))
  obtain ⟨task', component', line, made, htask', hspec', hmade, hbound⟩ :=
    h.container hsep hcontainers hname hkey
  obtain rfl := Option.some.inj (htask.symm.trans htask')
  obtain ⟨input, hinput, source, hargument, rfl⟩ :=
    (feeds_iff htask hspec' hbound.commandLine).mp hfeeds
  have hplaced := hplanned.mem_of_argument htask hargument
  obtain ⟨other, hother, -⟩ := h.named.placed _ hplaced
  refine ⟨name, other, hname, hother, ?_⟩
  -- What the task waits for is the producer itself, or a conversion that waits for it.
  rcases hbound.awaits hsep h.named hinput hargument hplaced hother with
    hmem | ⟨between, template, found, hmem, hfind, hscan⟩
  · exact .inl ⟨made, hmade, hmem⟩
  · exact .inr ⟨between, _, hfind, h.converts hsep hfind, ⟨made, hmade, hmem⟩,
      _, hfind, mem_dependencies_conversion.mpr hscan⟩

end Graphs

/-- The graph of a pipeline in a workflow, by the outlines of its tasks. -/
theorem PipelineMade.depends_iff {w : Workflow} {root : Blueprint}
    (h : PipelineMade P s c w root) (hsep : Separates P) {g : Graph}
    (hgraph : c.implementation = .graph g) (hcontainers : g.IsOfContainers)
    (hnone : ∀ text name, c.Writes text → ¬ Mentions text name)
    (horder : g.order c.inputNames = .ok order) :
    ∃ t, Keyed.find? w.templates w.entrypoint = some t ∧ ∀ consumer producer,
      Depends w.templates (emittedNames s order) t.tasks consumer producer ↔
        g.Feeds producer consumer := by
  obtain ⟨t, ht, hsame⟩ := h.entrypoint
  obtain ⟨order', d, hmade⟩ := h.makes.graph hgraph
  obtain rfl := Except.ok.inj (horder.symm.trans hmade.ordered)
  obtain ⟨outputs, -, htemplate⟩ := hmade.template
  -- The template that stands there and the draft it was made of agree in outlines, and dependencies
  -- are read off these.
  have houtlines : outlines t.tasks = outlines d.scope.tasks.entries := by
    have heq := outlines_of_sameRecord (hsame hsep)
    rwa [htemplate] at heq
  refine ⟨t, ht, fun consumer producer => ?_⟩
  rw [← hmade.taskNames]
  exact ⟨fun h => hmade.feeds_of_depends hsep hgraph hcontainers hnone (h.of_outlines houtlines),
    fun h => (hmade.depends_of_feeds hsep hcontainers h).of_outlines houtlines.symm⟩

end Argo

/-! ### Jobs -/

namespace Vertex

variable {P : String → Prop} {s : Settings} {c : Component}

/-- In a job whose tasks have some names, one task depends on another. -/
def Depends (names : Keyed String) (tasks : Keyed JobTask) (consumer producer : String) : Prop :=
  ∃ name other task, Keyed.find? names consumer = some name ∧
    Keyed.find? names producer = some other ∧ Keyed.find? tasks name = some task ∧
    other ∈ task.dependencies

section Steps

variable {inputs : List String} {p : Parts} {names : Keyed String} {id name other : String}
  {task : GraphTask} {component : Component} {line : CommandLine}

/-- What a task waits for: a task that it gets something from, or a conversion. -/
theorem StepOf.waits (h : StepOf s inputs p names id task component line name) {made : JobTask}
    (hmade : Keyed.find? p.tasks name = some made) (hmem : other ∈ made.dependencies) :
    (∃ input ∈ line.inputs, ∃ source,
      component.argumentFor task.arguments input = .taskOutput source ∧
        Keyed.find? names source.task = some other) ∨
    ∃ entry source caching,
      Keyed.find? p.tasks other = some (.conversion entry source caching) := by
  obtain ⟨entry, found, parameters, artifacts, caching, hfind, -, -, hvalues, hfiles⟩ :=
    h.emitted
  obtain rfl := Option.some.inj (hmade.symm.trans hfind)
  have hproper : (JobTask.step id entry parameters artifacts caching).IsProper :=
    isProper_of_boundBy hvalues hfiles
  obtain ⟨output, hlink⟩ := mem_dependencies.mp hmem
  have hlinks : ∀ link ∈ (JobTask.step id entry parameters artifacts caching).links,
      ∃ binding ∈ artifacts, binding.2.link? = some link :=
    hproper.links fun binding hbinding link heq => ⟨binding, hbinding, heq⟩
  obtain ⟨binding, hbinding, heq⟩ := hlinks _ hlink
  obtain ⟨input, hinput, -, hbinds⟩ := exists_left_of_mem hfiles hbinding
  generalize binding.2 = source at hbinds heq
  generalize hargument : component.argumentFor task.arguments input = argument at hbinds
  cases hbinds with
  -- a constant and an input of the pipeline become artifacts of a conversion
  | constant _ made | input _ made =>
    obtain ⟨rfl, -⟩ := Prod.mk.inj (Option.some.inj heq)
    obtain ⟨component, _, _, _, caching, hconversion, -⟩ := made
    exact .inr ⟨component, _, caching, hconversion⟩
  | output found =>
    obtain ⟨rfl, -⟩ := Prod.mk.inj (Option.some.inj heq)
    exact .inl ⟨input, List.mem_append_right _ hinput, _, hargument, found⟩

/-- A task waits for those that it gets something from. -/
theorem StepOf.awaits (h : StepOf s inputs p names id task component line name) {input : String}
    (hinput : input ∈ line.inputs) {source : TaskOutput}
    (hargument : component.argumentFor task.arguments input = .taskOutput source) :
    ∃ made other, Keyed.find? p.tasks name = some made ∧
      Keyed.find? names source.task = some other ∧ other ∈ made.dependencies := by
  obtain ⟨entry, found, parameters, artifacts, caching, hfind, -, -, hvalues, hfiles⟩ :=
    h.emitted
  rcases List.mem_append.mp hinput with hinput | hinput
  -- no input parameter is bound to an output
  · obtain ⟨_, -, hbinds⟩ := hvalues.find? hinput
    rw [hargument] at hbinds
    cases hbinds
  · obtain ⟨bound, hbound, hbinds⟩ := hfiles.find? hinput
    rw [hargument] at hbinds
    cases hbinds with
    | @output _ other hother =>
      refine ⟨_, other, hfind, hother, mem_dependencies.mpr ⟨source.output, ?_⟩⟩
      exact List.mem_append_right _ (List.mem_filterMap.mpr ⟨_, Keyed.mem_of_find? hbound, rfl⟩)

end Steps

section Graphs

variable {arguments : Keyed Value} {g : Graph} {order : List String} {job : Job} {d : Draft}

/-- The tasks of a pipeline for which there is a job are containers. -/
theorem PipelineCompiled.isOfContainers (h : PipelineCompiled P s c arguments g order job d) :
    g.IsOfContainers := by
  intro id task component htask hspec
  obtain ⟨component', line, name, hstep⟩ := h.compiled.stepAt htask
  obtain rfl := Option.some.inj (hspec.symm.trans hstep.spec)
  obtain ⟨container, himpl, -⟩ := hstep.commandLine
  exact ⟨container, himpl⟩

/-- The task under a name of the graph was made for this task of the graph. -/
theorem PipelineCompiled.step (h : PipelineCompiled P s c arguments g order job d)
    {id name : String} (hname : Keyed.find? d.taskNames id = some name)
    (hkey : name ∈ Keyed.keys d.tasks.entries) :
    ∃ task component line, g.task? id = some task ∧
      StepOf s c.inputNames d.parts d.taskNames id task component line name := by
  have hsound := h.compiled.sound
  have hid : id ∈ order := by
    rcases hsound.defined name hkey with hkept | ⟨other, hmem, hother⟩
    · exact absurd hkept (hsound.reserved id name hname).2
    · exact hsound.distinct id other name hname hother ▸ hmem
  obtain ⟨task, component, line, name', htask, hstep⟩ := h.compiled.emitted id hid
  obtain rfl := Option.some.inj (hname.symm.trans hstep.named)
  exact ⟨task, component, line, htask, hstep⟩

/-- The command line of such a task. -/
theorem StepOf.line_eq {inputs : List String} {p : Parts} {names : Keyed String} {id name : String}
    {task : GraphTask} {component : Component} {line : CommandLine}
    (h : StepOf s inputs p names id task component line name) :
    component.commandLine task.arguments accessors
      (some (component.parameterInputs task.arguments inputs)) = .ok line := by
  obtain ⟨container, himpl, hline⟩ := h.commandLine
  rw [Component.commandLine, himpl]
  exact hline

/-- **In a job a task depends on those that feed it.** -/
theorem PipelineCompiled.depends_iff (h : PipelineCompiled P s c arguments g order job d)
    {consumer producer : String} :
    Depends (emittedNames s order) job.root.tasks consumer producer ↔
      g.Feeds producer consumer := by
  rw [h.compiled.tasks, ← h.compiled.taskNames]
  constructor
  · rintro ⟨name, other, made, hname, hother, hmade, hmem⟩
    obtain ⟨task, component, line, htask, hstep⟩ := h.step hname (Keyed.mem_keys_of_find? hmade)
    rcases hstep.waits hmade hmem with ⟨input, hinput, source, hargument, hsource⟩ |
      ⟨entry, source, caching, hconversion⟩
    · exact (feeds_iff htask hstep.spec hstep.line_eq).mpr
        ⟨input, hinput, source, hargument, h.compiled.sound.distinct _ _ _ hsource hother⟩
    -- a name of the graph is never that of a conversion
    · obtain ⟨_, _, _, -, hproducer⟩ := h.step hother (Keyed.mem_keys_of_find? hconversion)
      obtain ⟨_, _, _, _, _, hfind, -⟩ := hproducer.emitted
      cases hconversion.symm.trans hfind
  · intro hfeeds
    obtain ⟨task, component, _, htask, -⟩ := id hfeeds
    obtain ⟨component', line, name, hstep⟩ := h.compiled.stepAt htask
    obtain ⟨input, hinput, source, hargument, rfl⟩ :=
      (feeds_iff htask hstep.spec hstep.line_eq).mp hfeeds
    obtain ⟨made, other, hmade, hother, hmem⟩ := hstep.awaits hinput hargument
    exact ⟨name, other, made, hstep.named, hother, hmade, hmem⟩

end Graphs

end Vertex

/-! ### Both targets -/

/-- **Both targets make tasks wait alike.**  When there are a workflow and a job of a graph,
    whatever the arguments and the configurations are, and no text that is written down mentions a
    task, then in both a task depends on those whose outputs its command line uses, and on no
    others.  All of these are among the tasks that the graph is ordered by.  Digests have to tell
    texts apart: conversions of different things would be one task if these had one digest. -/
theorem targets_wait_alike (context context' : Context) (c : Component) (g : Graph)
    (arguments arguments' : Keyed Value) (outputDirectory contextName : String) (w : Argo.Workflow)
    (job : Vertex.Job) (hgraph : c.implementation = .graph g)
    (hnone : ∀ text name, c.Writes text → ¬ Argo.Mentions text name)
    (hworkflow : (Argo.compile context c arguments).result = .ok w)
    (hdigests : (Argo.compile context c arguments).SeparatesDigests)
    (hjob : (Vertex.compile context' c arguments' outputDirectory contextName).result = .ok job)
    (hdigests' :
      (Vertex.compile context' c arguments' outputDirectory contextName).SeparatesDigests) :
    ∃ s s' order t, context.settings = .ok s ∧ context'.settings = .ok s' ∧
      g.order c.inputNames = .ok order ∧ Keyed.find? w.templates w.entrypoint = some t ∧
      ∀ consumer producer,
        (Argo.Depends w.templates (emittedNames s order) t.tasks consumer producer ↔
          Vertex.Depends (emittedNames s' order) job.root.tasks consumer producer) ∧
        (Vertex.Depends (emittedNames s' order) job.root.tasks consumer producer ↔
          g.Feeds producer consumer) ∧
        (g.Feeds producer consumer → ∃ producers,
          Keyed.find? g.dependencies consumer = some producers ∧ producer ∈ producers) := by
  obtain ⟨s, root, hs, hmade⟩ := Argo.compile_made (Recorded.yields_of_result hworkflow)
  obtain ⟨s', g', order, d, hs', hcompiled⟩ :=
    Vertex.compile_spec hdigests' (Recorded.yields_of_result hjob)
  obtain rfl : g = g' := by
    have heq := hcompiled.graph
    unfold Vertex.asGraph at heq
    rw [hgraph] at heq
    exact Except.ok.inj heq
  obtain ⟨t, ht, hdepends⟩ :=
    hmade.depends_iff hdigests hgraph hcompiled.isOfContainers hnone hcompiled.ordered
  -- Both targets are compared with what the graph says, so neither is ever compared with the other.
  refine ⟨s, s', order, t, hs, hs', hcompiled.ordered, ht, fun consumer producer => ?_⟩
  have hjobs : Vertex.Depends (emittedNames s' order) job.root.tasks consumer producer ↔
      g.Feeds producer consumer := hcompiled.depends_iff
  exact ⟨(hdepends consumer producer).trans hjobs.symm, hjobs, Graph.Feeds.mem_dependencies⟩

/-! ### The example -/

namespace Vertex

/-- The only text that is written down in the example mentions no task. -/
theorem samplePipeline_mentions_nothing (text name : String) (h : samplePipeline.Writes text) :
    ¬ Argo.Mentions text name := by
  obtain ⟨path, here, input, -, hhere, hinput, htext⟩ := h
  -- There are three places in the example, and only the last has a text written down.
  have hplaces : here ∈ ([
      { component := samplePipeline, arguments := rootArguments samplePipeline },
      { component := sampleProducer, arguments := [] },
      { component := sampleConsumer
        arguments := [ ("n", .literal "z"), ("x", .taskOutput { task := "p", output := "o" }),
          ("f", .graphInput "y" .null) ] }] : List Placed) := by
    refine at?_mem List.mem_cons_self (fun around haround g hg entry hentry component hspec => ?_)
      hhere
    simp only [List.mem_cons, List.not_mem_nil, or_false] at haround
    rcases haround with rfl | rfl | rfl
    · obtain rfl := Implementation.graph.inj hg
      simp only [sampleGraph, List.mem_cons, List.not_mem_nil, or_false] at hentry
      rcases hentry with rfl | rfl
      · obtain rfl := Option.some.inj hspec
        simp [sampleTask]
      · obtain rfl := Option.some.inj hspec
        simp [sampleTask]
    · cases hg
    · cases hg
  have hletter : text = "z" := by
    simp only [List.mem_cons, List.not_mem_nil, or_false] at hplaces
    rcases hplaces with rfl | rfl | rfl
    · obtain rfl := List.mem_singleton.mp hinput
      cases htext
    · cases hinput
    · simp only [sampleConsumer, Component.inputNames, List.map_cons, List.map_nil,
        List.mem_cons, List.not_mem_nil, or_false] at hinput
      rcases hinput with rfl | rfl | rfl
      · exact (Argument.literal.inj htext).symm
      · cases htext
      · cases htext
  rw [hletter]
  exact fun hwithin => absurd (hwithin.subset List.mem_cons_self) (by decide)

/-- There is a workflow of the example as well, and all digests on the way to it are different. -/
theorem samplePipeline_compiles_to_workflow :
    (Argo.compile Argo.sampleContext samplePipeline []).result.toOption.isSome = true ∧
      ((Argo.compile Argo.sampleContext samplePipeline []).digested.map
        Digest.sha256Hex).Nodup := by
  decide +kernel

/-- The workflow and the job of the example make its tasks wait alike. -/
theorem samplePipeline_waits_alike :
    ∃ w job s s' order t, samplePipeline.implementation = .graph sampleGraph ∧
      (Argo.compile Argo.sampleContext samplePipeline []).result = .ok w ∧
      (compile sampleContext samplePipeline [] "").result = .ok job ∧
      Argo.sampleContext.settings = .ok s ∧ sampleContext.settings = .ok s' ∧
      sampleGraph.order samplePipeline.inputNames = .ok order ∧
      Keyed.find? w.templates w.entrypoint = some t ∧
      ∀ consumer producer,
        (Argo.Depends w.templates (emittedNames s order) t.tasks consumer producer ↔
          Depends (emittedNames s' order) job.root.tasks consumer producer) ∧
        (Depends (emittedNames s' order) job.root.tasks consumer producer ↔
          sampleGraph.Feeds producer consumer) ∧
        (sampleGraph.Feeds producer consumer → ∃ producers,
          Keyed.find? sampleGraph.dependencies consumer = some producers ∧
            producer ∈ producers) := by
  obtain ⟨hsome, hdigests⟩ := samplePipeline_compiles_to_workflow
  obtain ⟨w, hw⟩ := Option.isSome_iff_exists.mp hsome
  obtain ⟨job, hjob⟩ := samplePipeline_result
  obtain ⟨s, s', order, t, h⟩ := targets_wait_alike Argo.sampleContext sampleContext
    samplePipeline sampleGraph [] [] "" "pipeline" w job rfl samplePipeline_mentions_nothing
    (toOption_eq_some.mp hw) (separatesDigests_of_nodup hdigests)
    hjob (separatesDigests_of_nodup samplePipeline_compiles.2)
  exact ⟨w, job, s, s', order, t, rfl, toOption_eq_some.mp hw, hjob, h⟩

end Vertex
end PipelineCompiler
