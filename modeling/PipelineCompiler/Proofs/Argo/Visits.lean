import PipelineCompiler.Proofs.Argo.Closure
import PipelineCompiler.Proofs.Argo.Run
import PipelineCompiler.Proofs.Failing

namespace PipelineCompiler.Argo

/-!
# Where a compilation comes

A compilation goes inwards from the pipeline, task by task, and it comes to a task when the tasks
before it are compiled.  That is so whether it has a result in the end or not.

* `Begins`, `Visits` — the compilation of a graph begins; the compilation of a pipeline comes to
  the component at a path;
* `Begins.runs` — what is known once some tasks of a graph are compiled;
* `Visits.place`, `Visits.kinds` — which component that is, and as what its inputs are available:
  this tells where their data comes from;
* `Raises`, `blueprint_raises` — where a failure comes up, and that every failure comes up
  somewhere.
-/

variable {P : String → Prop} {s : Settings} {c : Component}

/-! ### Coming to a component -/

/-- A graph begins: its tasks have an order, and its scope has their names. -/
structure Begins (s : Settings) (path : List String) (around : Placed) (kinds : Keyed InputKind)
    (g : Graph) (order : List String) (scope : Scope) : Prop where
  graph : around.component.implementation = .graph g
  ordered : g.order around.component.inputNames = .ok order
  started : Scope.start s path.reverse kinds order = .ok scope

/-- The compilation of a pipeline comes to what stands at a path.  By then it is known as what its
    inputs are available, and some templates are made. -/
inductive Visits (s : Settings) (c : Component) :
    List String → Placed → Keyed InputKind → Registry Template → Prop
  | root : Visits s c [] { component := c, arguments := rootArguments c } (rootKinds c)
      (.empty s.policy)
  | task {path before rest : List String} {around : Placed} {kinds inner : Keyed InputKind}
      {templates : Registry Template} {g : Graph} {scope : Scope} {d : Draft} {id : String}
      {task : GraphTask} {component : Component} (outer : Visits s c path around kinds templates)
      (begins : Begins s path around kinds g (before ++ id :: rest) scope)
      (compiled : (runTasks (taskSteps s g.tasks) before { templates, scope }).result = .ok d)
      (found : g.task? id = some task) (spec : task.reference.spec = some component)
      (kinded : d.scope.kindsOf task.arguments component.inputs = .ok inner) :
      Visits s c (id :: path) { component, arguments := task.arguments } inner d.templates

/-- The tasks of a graph are those in its order, each of which has a component. -/
theorem Begins.planned {path order : List String} {around : Placed} {kinds : Keyed InputKind}
    {g : Graph} {scope : Scope} (h : Begins s path around kinds g order scope) :
    Planned g around.component.inputNames order := order_planned h.ordered

/-- **Once some tasks of a graph are compiled,** the names in the draft are as they have to be, and
    the inputs of the graph are available as they were in the beginning. -/
theorem Begins.runs {path before rest : List String} {around : Placed} {kinds : Keyed InputKind}
    {g : Graph} {scope : Scope} (h : Begins s path around kinds g (before ++ rest) scope)
    {templates : Registry Template} (ht : templates.Sound P Template.record) {d : Draft}
    (hyields : (runTasks (taskSteps s g.tasks) before { templates, scope }).Yields P d) :
    d.Named P before ∧ templates.Grows d.templates ∧ d.scope.kinds = kinds ∧
      d.scope.path = path.reverse ∧ d.scope.taskNames = scope.taskNames := by
  have hnodup : ([] ++ before).Nodup := (List.nodup_append.mp h.planned.nodup).1
  obtain ⟨hnamed, hgrows⟩ := (runTasks_run hyields).named
    (fun _ _ inner _ => blueprint_stores inner) hnodup (Draft.named_start h.started ht)
  obtain ⟨names, a, -, rfl⟩ := start_eq h.started
  exact ⟨hnamed, hgrows.templates, hgrows.kinds, hgrows.path, hgrows.taskNames⟩

namespace Visits

variable {path : List String} {here : Placed} {kinds : Keyed InputKind}
  {templates : Registry Template}

/-- The templates that are made by then have different names, and each is found under its own. -/
theorem sound (h : Visits s c path here kinds templates) :
    templates.Sound (fun _ => True) Template.record := by
  induction h with
  | root => exact Registry.sound_empty (policy_delimiter_legal s)
  | task _ begins compiled _ _ _ ih =>
    exact (begins.runs ih (Recorded.yields_true compiled)).1.templates

/-- **The compilation comes to what stands at the path.** -/
theorem place (h : Visits s c path here kinds templates) : c.at? path = some here := by
  induction h with
  | root => rfl
  | task _ begins _ found spec _ ih =>
    exact at?_cons.mpr ⟨_, _, _, ih, begins.graph, found, spec, rfl⟩

/-- **It comes there once**, with one state of things. -/
theorem unique {here' : Placed} {kinds' : Keyed InputKind} {templates' : Registry Template}
    (h : Visits s c path here kinds templates) (h' : Visits s c path here' kinds' templates') :
    here' = here ∧ kinds' = kinds ∧ templates' = templates := by
  induction h generalizing here' kinds' templates' with
  | root =>
    cases h'
    exact ⟨rfl, rfl, rfl⟩
  | @task path before rest around kinds inner templates g scope d id task component _ begins
      compiled found spec kinded ih =>
    cases h' with
    | @task _ before' rest' _ _ _ _ g' scope' d' _ task' component' outer' begins' compiled' found'
        spec' kinded' =>
      obtain ⟨rfl, rfl, rfl⟩ := ih outer'
      obtain rfl := Implementation.graph.inj (begins.graph.symm.trans begins'.graph)
      have horder := Except.ok.inj (begins.ordered.symm.trans begins'.ordered)
      -- every task has one turn, so that the same tasks come before it
      have hother : id ∉ before ++ rest :=
        (List.nodup_cons.mp (List.nodup_middle.mp begins.planned.nodup)).1
      obtain ⟨rfl, -, rfl⟩ := (List.append_cons_inj_of_notMem
        (fun hmem => hother (List.mem_append_left _ hmem))
        (fun hmem => hother (List.mem_append_right _ hmem))).mp horder
      obtain rfl := Except.ok.inj (begins.started.symm.trans begins'.started)
      obtain rfl := Except.ok.inj (compiled.symm.trans compiled')
      obtain rfl := Option.some.inj (found.symm.trans found')
      obtain rfl := Option.some.inj (spec.symm.trans spec')
      obtain rfl := Except.ok.inj (kinded.symm.trans kinded')
      exact ⟨rfl, rfl, rfl⟩

end Visits

/-! ### Kinds and origins -/

/-- As what data with an origin is available. -/
def InputKind.ofOrigin : Origin → InputKind
  | .constant _ => .parameter
  | .output _ _ => .artifact
  | .pipelineInput _ => .any

/-- The kinds of the inputs of a task, one after another. -/
theorem find?_kindsOf {scope : Scope} {arguments : Keyed Argument} {specs : List InputSpec}
    {inner : Keyed InputKind} (h : scope.kindsOf arguments specs = .ok inner) {name : String}
    (hname : name ∈ specs.map InputSpec.name) : ∃ kind, Keyed.find? inner name = some kind ∧
      scope.kindOf (Keyed.find? arguments name) = .ok kind := by
  induction specs generalizing inner with
  | nil => cases hname
  | cons input rest ih =>
    obtain ⟨kind, hkind, h⟩ := bind_eq_ok.mp h
    obtain ⟨others, hothers, h⟩ := bind_eq_ok.mp h
    obtain rfl := pure_eq_ok.mp h
    rw [Keyed.find?]
    by_cases heq : input.name = name
    · rw [if_pos heq]
      exact ⟨kind, rfl, heq ▸ hkind⟩
    · rw [if_neg heq]
      exact ih hothers ((List.mem_cons.mp hname).resolve_left fun he => heq he.symm)

/-- What is known of an input of a task is what is known of the argument that counts for it. -/
theorem find?_of_kindsOf {scope : Scope} {arguments : Keyed Argument} {component : Component}
    {inner : Keyed InputKind} (h : scope.kindsOf arguments component.inputs = .ok inner)
    {name : String} (hname : name ∈ component.inputNames) : ∃ kind,
      Keyed.find? inner name = some kind ∧
      scope.kindOf (some (component.argumentFor arguments name)) = .ok kind := by
  -- an input without an argument is as good as one with its default
  have hcounts : scope.kindOf (Keyed.find? arguments name) =
      scope.kindOf (some (component.argumentFor arguments name)) := by
    unfold Component.argumentFor
    cases Keyed.find? arguments name with
    | none => rfl
    | some argument => rfl
  obtain ⟨kind, hkind, hof⟩ := find?_kindsOf h hname
  exact ⟨kind, hkind, hcounts ▸ hof⟩

/-- The inputs of what stands at a path have origins, and are available as these tell. -/
def KindsTell (c : Component) (path : List String) (here : Placed) (kinds : Keyed InputKind) :
    Prop :=
  ∀ name ∈ here.component.inputNames, ∃ origin, c.origin? path name = some origin ∧
    Keyed.find? kinds name = some (.ofOrigin origin)

/-- **From a graph to a task in it**: what is known of the argument that counts for an input tells
    where the data of the input comes from. -/
theorem KindsTell.argument {id : String} {path order : List String} {around : Placed}
    {kinds : Keyed InputKind} {g : Graph} {task : GraphTask} {component : Component}
    {scope : Scope} (h : KindsTell c path around kinds) (hkinds : scope.kinds = kinds)
    (hplanned : Planned g around.component.inputNames order) (htask : g.task? id = some task)
    (hhere : c.at? (id :: path) = some { component, arguments := task.arguments }) {name : String}
    {kind : InputKind}
    (hkind : scope.kindOf (some (component.argumentFor task.arguments name)) = .ok kind) :
    ∃ origin, c.origin? (id :: path) name = some origin ∧ kind = .ofOrigin origin := by
  have horigin := origin?_cons hhere name
  dsimp only at horigin
  cases hargument : component.argumentFor task.arguments name with
  | literal text =>
    rw [hargument] at hkind horigin
    exact ⟨_, horigin, (Except.ok.inj hkind).symm⟩
  | taskOutput source =>
    rw [hargument] at hkind horigin
    exact ⟨_, horigin, (Except.ok.inj hkind).symm⟩
  | graphInput input type =>
    rw [hargument] at hkind horigin
    -- the input of the graph is declared there, because the argument was given
    obtain ⟨entry, hentry, heq⟩ := argumentFor_mem hargument (fun _ he => nomatch he)
    obtain ⟨origin, hfrom, hfind⟩ := h input (hplanned.input htask hentry heq)
    rw [Scope.kindOf, fetch_eq_ok, hkinds, hfind] at hkind
    exact ⟨origin, horigin.trans hfrom, (Option.some.inj hkind).symm⟩

/-- **The inputs of everything that the compilation comes to are available as their origins
    tell**: the inputs of the pipeline in both ways, outputs of tasks as artifacts, and constants
    as parameters. -/
theorem Visits.kinds {path : List String} {here : Placed} {kinds : Keyed InputKind}
    {templates : Registry Template} (h : Visits s c path here kinds templates) :
    KindsTell c path here kinds := by
  induction h with
  | root => exact fun name hname => ⟨_, origin?_root hname, find?_rootKinds hname⟩
  | @task path before rest around kinds inner templates g scope d id task component outer begins
      compiled found spec kinded ih =>
    intro name hname
    obtain ⟨kind, hfind, hkind⟩ := find?_of_kindsOf kinded hname
    have hkinds := (begins.runs outer.sound (Recorded.yields_true compiled)).2.2.1
    have hhere := (Visits.task outer begins compiled found spec kinded).place
    obtain ⟨origin, horigin, rfl⟩ := ih.argument hkinds begins.planned found hhere hkind
    exact ⟨origin, horigin, hfind⟩

/-! ### Failures -/

/-- A failure comes up at a path: at a container, at a graph as a whole, or at a task while it is
    added to the graph around it. -/
inductive Raises (s : Settings) (c : Component) : List String → Failure → Prop
  | container {path : List String} {here : Placed} {kinds : Keyed InputKind}
      {templates : Registry Template} {container : Container} {e : Failure}
      (visits : Visits s c path here kinds templates)
      (implemented : here.component.implementation = .container container)
      (failed : containerBlueprint s here.component container here.arguments = .error e) :
      Raises s c path e
  | order {path : List String} {around : Placed} {kinds : Keyed InputKind}
      {templates : Registry Template} {g : Graph} {e : Failure}
      (visits : Visits s c path around kinds templates)
      (graph : around.component.implementation = .graph g)
      (failed : g.order around.component.inputNames = .error e) : Raises s c path e
  | start {path order : List String} {around : Placed} {kinds : Keyed InputKind}
      {templates : Registry Template} {g : Graph} {e : Failure}
      (visits : Visits s c path around kinds templates)
      (graph : around.component.implementation = .graph g)
      (ordered : g.order around.component.inputNames = .ok order)
      (failed : Scope.start s path.reverse kinds order = .error e) : Raises s c path e
  | kinds {path before rest : List String} {around : Placed} {kinds : Keyed InputKind}
      {templates : Registry Template} {g : Graph} {scope : Scope} {d : Draft} {id : String}
      {task : GraphTask} {component : Component} {e : Failure}
      (visits : Visits s c path around kinds templates)
      (begins : Begins s path around kinds g (before ++ id :: rest) scope)
      (compiled : (runTasks (taskSteps s g.tasks) before { templates, scope }).result = .ok d)
      (found : g.task? id = some task) (spec : task.reference.spec = some component)
      (failed : d.scope.kindsOf task.arguments component.inputs = .error e) :
      Raises s c (id :: path) e
  | task {path before rest : List String} {around : Placed} {kinds inner : Keyed InputKind}
      {templates templates' : Registry Template} {g : Graph} {scope : Scope} {d : Draft}
      {id : String} {task : GraphTask} {component : Component} {blueprint : Blueprint}
      {place : String} {e : Failure} (visits : Visits s c path around kinds templates)
      (begins : Begins s path around kinds g (before ++ id :: rest) scope)
      (compiled : (runTasks (taskSteps s g.tasks) before { templates, scope }).result = .ok d)
      (found : g.task? id = some task) (spec : task.reference.spec = some component)
      (kinded : d.scope.kindsOf task.arguments component.inputs = .ok inner)
      (made : (componentBlueprint s task.arguments inner (id :: path).reverse d.templates
        component).result = .ok (blueprint, templates'))
      (failed : (addTask s id { component, arguments := task.arguments, place }
        (id :: path).reverse blueprint { d with templates := templates' }).result = .error e) :
      Raises s c (id :: path) e
  | outputs {path order : List String} {around : Placed} {kinds : Keyed InputKind}
      {templates : Registry Template} {g : Graph} {scope : Scope} {d : Draft} {e : Failure}
      (visits : Visits s c path around kinds templates)
      (begins : Begins s path around kinds g order scope)
      (compiled : (runTasks (taskSteps s g.tasks) order { templates, scope }).result = .ok d)
      (failed : graphBlueprint d.scope g.outputValues = .error e) : Raises s c path e

/-- **Every failure comes up somewhere**, and is attributed to the tasks around. -/
theorem blueprint_raises {path : List String} {here : Placed} {kinds : Keyed InputKind}
    {templates : Registry Template} (hvisits : Visits s c path here kinds templates) {e : Failure}
    (h : (componentBlueprint s here.arguments kinds path.reverse templates here.component).result
      = .error e) :
    ∃ inward e', Raises s c (inward ++ path) e' ∧ e = e'.outward inward := by
  obtain ⟨component, arguments⟩ := here
  induction component using Component.nesting generalizing path arguments kinds templates e with
  | container component container himpl =>
    rw [componentBlueprint_container himpl] at h
    rcases Recorded.bind_eq_error.mp h with h | ⟨blueprint, -, h⟩
    · exact ⟨[], e, .container hvisits himpl h, rfl⟩
    · cases h
  | graph component g himpl ih =>
    rw [componentBlueprint_graph himpl] at h
    rcases Recorded.bind_eq_error.mp h with h | ⟨order, horder, h⟩
    · exact ⟨[], e, .order hvisits himpl h, rfl⟩
    rcases Recorded.bind_eq_error.mp h with h | ⟨scope, hscope, h⟩
    · exact ⟨[], e, .start hvisits himpl horder h, rfl⟩
    have hbegins : Begins s path ⟨component, arguments⟩ kinds g order scope :=
      ⟨himpl, horder, hscope⟩
    rcases Recorded.bind_eq_error.mp h with h | ⟨d, hd, h⟩
    -- a task fails: its kinds, its component, or what is added for it
    · have htasks : ∀ id ∈ order, ∃ task, g.task? id = some task := fun id hid =>
        Keyed.exists_find?_of_mem_keys ((hbegins.planned.mem_iff id).mp hid)
      obtain ⟨before, id, rest, task, d, e₁, rfl, hd, htask, herror, rfl⟩ :=
        tasks_error (taskStep s) (fun _ => rfl)
          (fun id task rest d htask => runTasks_cons htask rest d) htasks h
      have hentry := Keyed.mem_of_find? htask
      obtain ⟨inner, hspec⟩ := Option.isSome_iff_exists.mp (hbegins.planned.specified _ hentry)
      obtain ⟨-, -, -, hpath, -⟩ := hbegins.runs hvisits.sound (Recorded.yields_true hd)
      rw [taskStep_eq hspec, hpath, ← List.reverse_cons] at herror
      rcases Recorded.bind_eq_error.mp herror with herror | ⟨innerKinds, hkinds, herror⟩
      · exact ⟨[id], e₁, .kinds hvisits hbegins hd htask hspec herror, rfl⟩
      rcases Recorded.bind_eq_error.mp herror
        with herror | ⟨⟨blueprint, templates'⟩, hmade, herror⟩
      -- the failure comes up in the component of the task, or somewhere within
      · obtain ⟨inward, e', hraises, rfl⟩ := ih _ hentry inner hspec
          task.arguments (.task hvisits hbegins hd htask hspec hkinds) herror
        refine ⟨inward ++ [id], e', by simpa using hraises, ?_⟩
        rw [Failure.outward_append]
        rfl
      · exact ⟨[id], e₁, .task hvisits hbegins hd htask hspec hkinds hmade herror, rfl⟩
    · rcases Recorded.bind_eq_error.mp h with h | ⟨blueprint, -, h⟩
      · exact ⟨[], e, .outputs hvisits hbegins hd h, rfl⟩
      · cases h

end PipelineCompiler.Argo
