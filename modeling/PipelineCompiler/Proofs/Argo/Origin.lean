import PipelineCompiler.Proofs.Argo.Closure
import PipelineCompiler.Proofs.Argo.Follow

namespace PipelineCompiler.Argo

/-!
# Origins and endings

* `emittedPath?` — the names that a task and the tasks around it have in a workflow;
* `ending?` — where references to data with an origin have to end;
* `emittedPath?_inj` — different tasks have different paths;
* `IsPlain` — pipelines whose texts and names stay what they are in a workflow;
* `ending?_inj` — in such a pipeline different origins have different endings.
-/

variable {s : Settings} {c : Component} {texts : Keyed String}

/-! ### Names in a workflow -/

/-- The names of the tasks of the graph that implements a component. -/
def emittedTasks? (s : Settings) (c : Component) : Option (Keyed String) := do
  let g ← c.graph?
  let order ← (g.order c.inputNames).toOption
  pure (emittedNames s order)

/-- The path in a workflow that belongs to a path in the pipeline. -/
def emittedPath? (s : Settings) (c : Component) : List String → Option (List String)
  | [] => some []
  | id :: outer => do
    let around ← c.at? outer
    let names ← emittedTasks? s around.component
    let name ← Keyed.find? names id
    let path ← emittedPath? s c outer
    pure (name :: path)

/-- Where references to data with an origin end in a workflow of a pipeline that is given some
    texts. -/
def ending? (s : Settings) (c : Component) (texts : Keyed String) : Origin → Option Ending
  | .constant text => some (.constant text)
  | .output path name =>
    (emittedPath? s c path).map fun path => .output path (sanitizeIoName name)
  | .pipelineInput name => some (.argument (sanitizeIoName name) (c.rootTextFor texts name))

/-- The path of a task is that of the graph around it and the name of the task. -/
theorem emittedPath?_cons {id : String} {outer path : List String} :
    emittedPath? s c (id :: outer) = some path ↔ ∃ around names name site,
      c.at? outer = some around ∧ emittedTasks? s around.component = some names ∧
      Keyed.find? names id = some name ∧ emittedPath? s c outer = some site ∧
      path = name :: site := by
  rw [emittedPath?]
  simp only [Option.bind_eq_bind, Option.bind_eq_some_iff, Option.pure_def, Option.some.injEq]
  constructor
  · rintro ⟨around, haround, names, hnames, name, hname, site, hsite, rfl⟩
    exact ⟨around, names, name, site, haround, hnames, hname, hsite, rfl⟩
  · rintro ⟨around, names, name, site, haround, hnames, hname, hsite, rfl⟩
    exact ⟨around, haround, names, hnames, name, hname, site, hsite, rfl⟩

/-- **Different tasks have different paths.** -/
theorem emittedPath?_inj {path path' site : List String} (h : emittedPath? s c path = some site)
    (h' : emittedPath? s c path' = some site) : path = path' := by
  induction path generalizing path' site with
  | nil =>
    obtain rfl := Option.some.inj h
    cases path' with
    | nil => rfl
    | cons id outer =>
      obtain ⟨_, _, _, _, -, -, -, -, heq⟩ := emittedPath?_cons.mp h'
      cases heq
  | cons id outer ih =>
    obtain ⟨around, names, name, inner, haround, hnames, hname, hinner, rfl⟩ :=
      emittedPath?_cons.mp h
    cases path' with
    | nil => cases Option.some.inj h'
    | cons id' outer' =>
      obtain ⟨around', names', name', inner', haround', hnames', hname', hinner', heq⟩ :=
        emittedPath?_cons.mp h'
      obtain ⟨rfl, rfl⟩ := List.cons.inj heq
      -- the tasks stand in one graph, where names tell them apart
      obtain rfl := ih hinner hinner'
      obtain rfl := Option.some.inj (haround.symm.trans haround')
      obtain rfl := Option.some.inj (hnames.symm.trans hnames')
      unfold emittedTasks? at hnames
      obtain ⟨g, -, hnames⟩ := Option.bind_eq_some_iff.mp hnames
      obtain ⟨order, -, hnames⟩ := Option.bind_eq_some_iff.mp hnames
      obtain rfl := Option.some.inj hnames
      rw [emittedNames_inj hname hname']

/-! ### Plain pipelines -/

/-- A component and arguments whose texts cannot be taken for references, and whose inputs and
    outputs keep different names. -/
structure PlainAt (here : Placed) : Prop where
  literals : ∀ entry ∈ here.arguments, ∀ text, entry.2 = .literal text → HasNoBraces text
  defaults : ∀ input ∈ here.component.inputs, ∀ text, input.default = some text →
    HasNoBraces text
  inputs : DistinctNames here.component.inputNames
  outputs : DistinctNames here.component.outputNames

/-- A pipeline that is plain at every depth. -/
def IsPlain (c : Component) : Prop := ∀ path here, c.at? path = some here → PlainAt here

/-- A literal that counts cannot be taken for a reference. -/
theorem PlainAt.hasNoBraces {here : Placed} (h : PlainAt here) {name text : String}
    (htext : here.component.argumentFor here.arguments name = .literal text) :
    HasNoBraces text := by
  rcases argumentFor_literal htext with ⟨entry, hentry, heq⟩ | ⟨input,
    hinput, hdefault⟩ | rfl
  · exact h.literals entry hentry text heq
  · exact h.defaults input hinput text hdefault
  · decide

/-- **Different origins have different endings.** -/
theorem ending?_inj (hplain : IsPlain c) {origin other : Origin} {ending : Ending}
    (horigin : origin.IsOf c) (hother : other.IsOf c)
    (h : ending? s c texts origin = some ending) (h' : ending? s c texts other = some ending) :
    other = origin := by
  -- Origins of different sorts have endings of different sorts; those of one sort have the same
  -- name and, for outputs, the same path.
  cases origin with
  | constant text =>
    obtain rfl := Option.some.inj h
    cases other with
    | constant text' =>
      injection Option.some.inj h' with htext
      rw [htext]
    | output path name =>
      obtain ⟨_, -, heq⟩ := Option.map_eq_some_iff.mp h'
      cases heq
    | pipelineInput name => cases Option.some.inj h'
  | output path name =>
    obtain ⟨site, hsite, rfl⟩ := Option.map_eq_some_iff.mp h
    cases other with
    | constant text => cases Option.some.inj h'
    | output path' name' =>
      obtain ⟨site', hsite', heq⟩ := Option.map_eq_some_iff.mp h'
      injection heq with hpath hname
      subst hpath
      obtain rfl := emittedPath?_inj hsite' hsite
      obtain ⟨here, hhere, hmem⟩ := horigin
      obtain ⟨here', hhere', hmem'⟩ := hother
      obtain rfl := Option.some.inj (hhere.symm.trans hhere')
      rw [(hplain _ _ hhere).outputs name' hmem' name hmem hname]
    | pipelineInput name' => cases Option.some.inj h'
  | pipelineInput name =>
    obtain rfl := Option.some.inj h
    cases other with
    | constant text => cases Option.some.inj h'
    | output path name' =>
      obtain ⟨_, -, heq⟩ := Option.map_eq_some_iff.mp h'
      cases heq
    | pipelineInput name' =>
      injection Option.some.inj h' with hname
      rw [(hplain [] _ rfl).inputs name' hother name horigin hname]

end PipelineCompiler.Argo
