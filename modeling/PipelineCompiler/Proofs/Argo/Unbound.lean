import PipelineCompiler.Proofs.Argo.Kinds
import PipelineCompiler.Proofs.Argo.Needs
import PipelineCompiler.Proofs.Component.Lacking
import PipelineCompiler.Proofs.Context
import PipelineCompiler.Proofs.Verdict

namespace PipelineCompiler.Argo

/-!
# Workflows without an argument

An argument of a task, at whatever depth, is taken away from a pipeline that has a workflow.

* `compile_misses` — where a missing argument is reported: at a task that reads its input;
* `CanLose` — an argument that an input requires, and that no condition looks at;
* `ReadsFileWithin` — a container within the task reads the data as a file;
* `CanLose.plainThroughout`, `CanLose.needs` — the pipeline without the argument is plain, and
  fails its check if and only if the input is read;
* `CanLose.refused`, `CanLose.missing` — what is reported instead of a workflow, and when;
* `compile_unbind` — there is a workflow, or one of these is reported.
-/

open Text

variable {P : String → Prop} {s : Settings} {c : Component} {name : String} {way : List String}
  {here : Placed}

/-! ### Missing arguments -/

/-- **Where an argument is missing**: at a task whose template reads the input. -/
theorem Raises.missing {path : List String} {e : Failure} (h : Raises s c path e)
    (hmissing : ¬ e.Avoids .missingArgument) :
    ∃ name here blueprint final, e = .ofCause (.missingArgument name) ∧
      Makes (fun _ => True) s c final path here blueprint ∧
      name ∈ blueprint.parameters ++ blueprint.artifacts ∧
      here.component.checkInput (Keyed.has here.arguments) name ≠ .ok () := by
  have hlenient := isLenient_avoids .missingArgument
  have hkind : ErrorKind.missingArgument.IsOfInputs := trivial
  -- Of all the places where an error comes up, only a task whose inputs are bound can lack an
  -- argument.
  cases h with
  | container _ _ failed =>
    exact absurd (failsOnly_containerBlueprint hlenient (avoids_ofCommandLine hkind) s _ _ _ e
      failed) hmissing
  | order _ _ failed => exact absurd (avoids_order hkind _ _ e failed) hmissing
  | start _ _ _ failed => exact absurd (failsOnly_start hlenient s _ _ _ e failed) hmissing
  | kinds _ _ _ _ _ failed => exact absurd (failsOnly_kindsOf hlenient _ _ _ e failed) hmissing
  | outputs _ _ _ failed =>
    exact absurd (failsOnly_graphBlueprint hlenient _ _ e failed) hmissing
  | task visits begins compiled found spec kinded made failed =>
    obtain ⟨name, hname, rfl, hfails⟩ := addTask_missing hmissing failed
    obtain ⟨hnamed, -⟩ := begins.runs visits.sound (Recorded.yields_true compiled)
    exact ⟨name, _, _, _, rfl, ⟨_, _, _, .task visits begins compiled found spec kinded,
      hnamed.templates, Recorded.yields_true made, .refl _⟩, hname, hfails⟩

/-- **Where the compilation of a pipeline misses an argument**: at such a task, unless it is one of
    the pipeline itself. -/
theorem compile_misses {context : Context} {arguments : Keyed Value} {e : CompilationError}
    (h : (compile context c arguments).result = .error (.compilation e))
    (hkind : e.cause.diagnosis.kind = .missingArgument) (hnested : e.taskPath ≠ []) :
    ∃ s name here blueprint final, e.cause = .missingArgument name ∧
      Makes (fun _ => True) s c final e.taskPath.reverse here blueprint ∧
      name ∈ blueprint.parameters ++ blueprint.artifacts ∧
      here.component.checkInput (Keyed.has here.arguments) name ≠ .ok () := by
  -- failures other than that an argument of a task is missing
  let p : Failure → Prop :=
    fun e => ∀ id path, e.verdict? ≠ some (.missingArgument, id :: path)
  have hlenient : IsLenient p := fun e h id path he => by
    rw [h] at he
    cases he
  have hroot : ∀ name, p (.ofCause (.missingArgument name)) := fun name id path he => nomatch he
  have hfails : ¬ p (.compilation e) := fun hp => by
    obtain ⟨id, path, hpath⟩ := List.exists_cons_of_ne_nil hnested
    exact hp id path (by rw [Failure.verdict?, hkind, hpath])
  obtain ⟨s, path, e', -, hraises, he⟩ := compile_raises hlenient hroot h hfails
  obtain ⟨inner, rfl, hpath⟩ := Failure.eq_of_outward he.symm
  obtain ⟨name, here, blueprint, final, heq, hmissing⟩ := hraises.missing fun hother =>
    hother inner (by rw [Failure.verdict?, hkind])
  injection heq with heq
  injection heq with hcause hinner
  refine ⟨s, name, here, blueprint, final, hcause, ?_⟩
  rw [hpath, hinner, List.append_nil, List.reverse_reverse]
  exact hmissing

/-! ### Files that are read -/

/-- A container at a path reads an input as a file. -/
def ReadsFile (c : Component) (path : List String) (input : String) : Prop :=
  ∃ here container line, c.at? path = some here ∧
    here.component.implementation = .container container ∧
    here.component.commandLine here.arguments accessors = .ok line ∧ input ∈ line.pathInputs

/-- What is made of something within what something is made of. -/
theorem Makes.within {final : Keyed Template} {path inner : List String} {around : Placed}
    {blueprint : Blueprint} (h : Makes P s c final path around blueprint)
    (hhere : c.at? (inner ++ path) = some here) :
    ∃ made, Makes P s c final (inner ++ path) here made := by
  induction inner generalizing here with
  | nil =>
    obtain rfl := Option.some.inj (h.place.symm.trans hhere)
    exact ⟨blueprint, h⟩
  | cons id inner ih =>
    obtain ⟨around', _, _, haround, -⟩ := at?_cons.mp hhere
    obtain ⟨made, hmade⟩ := ih haround
    obtain ⟨made', hmade', -⟩ := hmade.inner hhere
    exact ⟨made', hmade'⟩

/-- **No constant is read as a file** in a graph that something is made of. -/
theorem Makes.ne_constant {final : Keyed Template} {outer : List String} {around : Placed}
    {blueprint : Blueprint} (h : Makes P s c final outer around blueprint) {id input text : String}
    (hread : ReadsFile c (id :: outer) input) :
    c.origin? (id :: outer) input ≠ some (.constant text) := by
  obtain ⟨here, container, line, hhere, himpl, hline, hinput⟩ := hread
  obtain ⟨_, g, _, haround, hg, -⟩ := at?_cons.mp hhere
  obtain rfl := Option.some.inj (h.place.symm.trans haround)
  obtain ⟨order, d, hmade⟩ := h.graph hg
  obtain ⟨_, _, _, _, -, -, line', hline', -, hfiles⟩ :=
    (hmade.served haround hg).containers id here container hhere himpl
  obtain rfl := Except.ok.inj (hline.symm.trans hline')
  obtain ⟨origin, horigin, hne⟩ := hfiles input hinput
  rw [horigin]
  exact fun he => hne text (Option.some.inj he)

section Made

variable {w : Workflow} {root : Blueprint} (hmade : PipelineMade P s c w root)
include hmade

/-- Nor in a pipeline that has a workflow. -/
theorem PipelineMade.ne_constant {path : List String} {input text : String}
    (hread : ReadsFile c path input) : c.origin? path input ≠ some (.constant text) := by
  cases path with
  | nil =>
    intro h
    rw [Component.origin?] at h
    split at h
    · cases Option.some.inj h
    · cases h
  | cons id outer =>
    have hplaced := hread
    obtain ⟨here, -, -, hhere, -⟩ := hplaced
    obtain ⟨around, -, -, haround, -⟩ := at?_cons.mp hhere
    obtain ⟨blueprint, hmakes, -⟩ := hmade.exists_makes haround
    exact hmakes.ne_constant hread

/-- Everything in such a pipeline is in order. -/
theorem PipelineMade.exists_needs {path : List String} (hhere : c.at? path = some here) :
    ∃ names, here.component.needs here.arguments = .ok names := by
  obtain ⟨blueprint, hmakes, -⟩ := hmade.exists_makes hhere
  obtain ⟨names, hnames, -⟩ := hmakes.needs
  exact ⟨names, hnames⟩

/-- The tasks in it are given what they need. -/
theorem PipelineMade.given {id : String} {outer : List String}
    (hhere : c.at? (id :: outer) = some here) {names : List String}
    (hnames : here.component.needs here.arguments = .ok names) :
    ∀ name ∈ names, here.component.checkInput (Keyed.has here.arguments) name = .ok () := by
  obtain ⟨around, g, task, haround, himpl, htask, hspec, harguments⟩ := at?_cons.mp hhere
  obtain ⟨used, hused⟩ := hmade.exists_needs haround
  rw [needs_graph himpl] at hused
  obtain ⟨-, -, hall, -⟩ := check_eq_ok hused
  obtain ⟨needed, hneeded⟩ := hall id task htask
  obtain ⟨names', hnames', hchecked, -⟩ := (taskNeeds_eq_ok hspec).mp hneeded
  rw [← harguments] at hnames' hchecked
  obtain rfl := Except.ok.inj (hnames.symm.trans hnames')
  exact checkInputs_eq_ok.mp hchecked

/-- What a container reads as a file is needed. -/
theorem PipelineMade.mem_needs {path : List String} {input : String}
    (hread : ReadsFile c path input) : ∃ here names, c.at? path = some here ∧
      here.component.needs here.arguments = .ok names ∧ input ∈ names := by
  obtain ⟨here, container, line, hhere, himpl, hline, hinput⟩ := hread
  obtain ⟨blueprint, hmakes, -⟩ := hmade.exists_makes hhere
  obtain ⟨names, hnames, hsame⟩ := hmakes.needs
  obtain ⟨line', hline', -, hartifacts⟩ := hmakes.container himpl
  obtain rfl := Except.ok.inj (hline.symm.trans hline')
  exact ⟨here, names, hhere, hnames,
    (hsame input).mp (List.mem_append_right _ (hartifacts ▸ hinput))⟩

end Made

/-- The literals that count for what a task needs are plain. -/
theorem PlainThroughout.whole_literal (h : PlainThroughout c) {id : String} {outer : List String}
    (hhere : c.at? (id :: outer) = some here) {names : List String}
    (hnames : here.component.needs here.arguments = .ok names) {input text : String}
    (hinput : input ∈ names)
    (htext : here.component.argumentFor here.arguments input = .literal text) : Whole text := by
  obtain ⟨around, g, task, haround, himpl, htask, hspec, harguments⟩ := at?_cons.mp hhere
  rw [harguments] at hnames htext
  exact (h outer around haround).2.literals g himpl id task _ htask hspec names hnames input hinput
    text htext

/-! ### Arguments that can be lost -/

/-- An argument that can be lost: the task at the end of a way needs one for an input, and its
    conditions do not look at this input. -/
structure CanLose (c : Component) (name : String) (way : List String) (here : Placed) : Prop where
  nested : way ≠ []
  place : c.at? way.reverse = some here
  required : here.component.Requires name
  unlooked : ∀ container, here.component.implementation = .container container →
    ¬ container.LooksAt name

/-- Within the task, a container at a path reads an input as a file whose data comes through the
    input of the task. -/
def ReadsFileWithin (c : Component) (name : String) (way path : List String) (input : String) :
    Prop :=
  path ≠ way.reverse ∧ c.Passes way.reverse name path input ∧ ReadsFile c path input

namespace CanLose

variable (h : CanLose c name way here)
include h

/-- What stands at the task without the argument. -/
theorem at?_self : (c.unbind name way).at? way.reverse = some (here.unbind name (some [])) := by
  have hrest : restOf way way.reverse = some [] := restOf_eq_some.mpr (by simp)
  rw [at?_unbind h.nested, h.place, hrest]
  rfl

/-- What stands somewhere without the argument, and what stood there before. -/
theorem at?_before {path : List String} {there' : Placed}
    (hthere : (c.unbind name way).at? path = some there') :
    ∃ there, c.at? path = some there ∧ there' = there.unbind name (restOf way path) ∧
      (restOf way path = some [] → there = here) := by
  rw [at?_unbind h.nested] at hthere
  obtain ⟨there, hplace, rfl⟩ := Option.map_eq_some_iff.mp hthere
  refine ⟨there, hplace, rfl, fun hrest => ?_⟩
  have hway := restOf_eq_some.mp hrest
  rw [List.append_nil] at hway
  have hhere := h.place
  rw [hway, List.reverse_reverse] at hhere
  exact Option.some.inj (hplace.symm.trans hhere)

/-- The command line of a container is the same without the argument. -/
theorem commandLine {rest : Option (List String)} {there : Placed}
    (hself : rest = some [] → there = here) {container : Container}
    (himpl : there.component.implementation = .container container) :
    (there.unbind name rest).component.commandLine (there.unbind name rest).arguments accessors =
      there.component.commandLine there.arguments accessors := by
  cases rest with
  | none => rfl
  | some rest =>
    cases rest with
    | nil =>
      obtain rfl := hself rfl
      exact commandLine_without _ h.unlooked accessors
    | cons id inner => simp only [Placed.unbind, edit_container himpl]

/-- Containers read the same inputs as files without the argument. -/
theorem readsFile_iff {path : List String} {input : String} :
    ReadsFile (c.unbind name way) path input ↔ ReadsFile c path input := by
  constructor
  · rintro ⟨there', container, line, hthere, himpl, hline, hinput⟩
    obtain ⟨there, hplace, rfl, hself⟩ := h.at?_before hthere
    have himpl := unbind_eq_container.mp himpl
    exact ⟨there, container, line, hplace, himpl, (h.commandLine hself himpl).symm.trans hline,
      hinput⟩
  · rintro ⟨there, container, line, hplace, himpl, hline, hinput⟩
    have hthere : (c.unbind name way).at? path = some (there.unbind name (restOf way path)) := by
      rw [at?_unbind h.nested, hplace]
      rfl
    obtain ⟨there', hplace', -, hself⟩ := h.at?_before hthere
    obtain rfl := Option.some.inj (hplace.symm.trans hplace')
    exact ⟨_, container, line, hthere, unbind_eq_container.mpr himpl,
      (h.commandLine hself himpl).trans hline, hinput⟩

section Read

variable {read : List String} (hread : here.component.needs here.arguments = .ok read)
include hread

/-- What a task without the argument needs, somewhere around the one that lost it. -/
theorem lacks {path : List String} {around : Placed}
    (haround : c.at? path = some around) {id : String} {inner : List String}
    (hrest : restOf way path = some (id :: inner)) {used : List String}
    (hused : around.component.needs around.arguments = .ok used) :
    Lacks (name ∈ read) name (id :: inner) used
      ((around.component.edit id (GraphTask.unbind name inner)).needs around.arguments) := by
  have hplace := h.place
  rw [restOf_eq_some.mp hrest, List.reverse_append, List.reverse_reverse, List.reverse_cons,
    List.append_assoc, List.singleton_append] at hplace
  exact needs_unbind hplace h.required hread (needs_without _ h.unlooked) haround hused

/-- **The check of the pipeline without the argument**: it passes if the input is not read, and
    otherwise the argument is missing. -/
theorem check {names : List String} (hnames : c.needs (rootArguments c) = .ok names)
    {given : String → Bool} (hgiven : c.checkInputs given names = .ok ()) {c' : Component}
    (hc' : c' = c.unbind name way) :
    (name ∉ read → (c'.needs (rootArguments c') >>= c'.checkInputs given) = .ok ()) ∧
      (name ∈ read → (c'.needs (rootArguments c') >>= c'.checkInputs given) =
        .error (.compilation { cause := .missingArgument name, taskPath := way })) := by
  obtain ⟨id, inner, rfl⟩ := List.exists_cons_of_ne_nil h.nested
  have hedit : c' = c.edit id (GraphTask.unbind name inner) := hc'
  have hlacks : Lacks (name ∈ read) name (id :: inner) names (c'.needs (rootArguments c')) := by
    have harguments : rootArguments c' = rootArguments c := by
      rw [hedit, rootArguments, edit_inputNames, rootArguments]
    rw [harguments, hedit]
    have hroot : c.at? [] = some { component := c, arguments := rootArguments c } := rfl
    exact h.lacks hread hroot rfl hnames
  -- Without a reader the pipeline needs what it needed before, all of which is given; with one the
  -- task fails its check.
  constructor
  · intro hunread
    obtain ⟨needed, hneeded, hsame⟩ := hlacks.unread hunread
    rw [hneeded]
    refine checkInputs_eq_ok.mpr fun input hinput => ?_
    rw [hedit, edit_checkInput]
    exact checkInputs_eq_ok.mp hgiven input ((hsame input).mp hinput)
  · intro hmem
    rw [hlacks.read hmem]
    rfl

section Made

variable {w : Workflow} {root : Blueprint} (hmade : PipelineMade P s c w root)
include hmade

/-- The literals that count for what is needed in a task without the argument are plain. -/
theorem whole_literal (hplain : PlainThroughout c) {id : String} {path : List String}
    {there : Placed} (hthere : c.at? (id :: path) = some there) {rest : Option (List String)}
    (hrest : restOf way (id :: path) = rest) (hself : rest = some [] → there = here)
    {names : List String} (hnames : (there.unbind name rest).component.needs
      (there.unbind name rest).arguments = .ok names) {input : String} (hinput : input ∈ names)
    {text : String} (htext : (there.unbind name rest).component.argumentFor
      (there.unbind name rest).arguments input = .literal text) : Whole text := by
  obtain ⟨before, hbefore⟩ := hmade.exists_needs hthere
  cases rest with
  | none => exact hplain.whole_literal hthere hnames hinput htext
  | some rest =>
    cases rest with
    | nil =>
      obtain rfl := hself rfl
      by_cases hname : input = name
      -- the input that lost its argument has no default, and is empty now
      · rw [hname, h.required.argumentFor_unbind] at htext
        obtain rfl := Argument.literal.inj htext
        exact whole_of_ascii (by decide +kernel)
      · rw [unbind_argumentFor fun _ => hname] at htext
        have hkept := needs_without there.arguments h.unlooked
        exact hplain.whole_literal hthere (hkept.symm.trans hnames) hinput htext
    | cons next inner =>
      have hlacks := h.lacks hread hthere hrest hbefore
      have hsame : Lacks _ _ _ before (.ok names) := hnames ▸ hlacks
      rw [Placed.unbind, edit_argumentFor] at htext
      exact hplain.whole_literal hthere hbefore ((hsame.of_ok input).mp hinput) htext

/-- **The pipeline is plain without the argument**, if it was before. -/
theorem plainThroughout (hplain : PlainThroughout c) : PlainThroughout (c.unbind name way) := by
  intro path there' hthere'
  obtain ⟨there, hthere, rfl, hself⟩ := h.at?_before hthere'
  obtain ⟨hname, hwrites⟩ := hplain path there hthere
  refine ⟨(unbind_name name _ there).symm ▸ hname, fun container himpl line hline => ?_,
    fun g himpl id task component htask hspec names hnames input hinput text htext => ?_⟩
  · have himpl := unbind_eq_container.mp himpl
    rw [h.commandLine hself himpl] at hline
    exact hwrites.launch container himpl line hline
  · have hinner' : (c.unbind name way).at? (id :: path) =
        some { component, arguments := task.arguments } :=
      at?_cons.mpr ⟨_, g, task, hthere', himpl, htask, hspec, rfl⟩
    obtain ⟨inner, hinner, heq, hinnerSelf⟩ := h.at?_before hinner'
    obtain ⟨rfl, harguments⟩ := Placed.mk.inj heq
    rw [harguments] at hnames htext
    exact h.whole_literal hread hmade hplain hinner rfl hinnerSelf hnames hinput htext

/-- What is read as a file within the task is read by the task. -/
theorem mem_read {path : List String} {input : String}
    (hwithin : ReadsFileWithin c name way path input) : name ∈ read := by
  obtain ⟨-, hpasses, hfile⟩ := hwithin
  obtain ⟨there, names, hthere, hnames, hinput⟩ := hmade.mem_needs hfile
  exact hpasses.needs (fun path here hhere => hmade.exists_needs hhere) hthere hnames hinput h.place
    hread

end Made
end Read

/-! ### What is reported -/

section Reports

variable {w : Workflow} {root : Blueprint} (hmade : PipelineMade P s c w root) {context : Context}
  {arguments : Keyed Value} {e : CompilationError}
  (herror : (compile context (c.unbind name way) arguments).result = .error (.compilation e))
include hmade herror

/-- **If a constant is refused**, a container within the task reads the data as a file. -/
theorem refused (hkind : e.cause.diagnosis.kind = .constantArtifact) :
    ∃ input, e.cause = .constantArtifact input ∧
      ReadsFileWithin c name way e.taskPath.reverse input := by
  obtain ⟨input, there', container, line, text, hcause, hthere', himpl, hline, hinput, horigin,
    hgiven⟩ := compile_refuses herror hkind
  have hread := h.readsFile_iff.mp ⟨there', container, line, hthere', himpl, hline, hinput⟩
  rcases origin?_unbind h.nested horigin with ⟨text, hconstant⟩ | hpasses
  -- a constant that was there before would have been refused before
  · exact absurd hconstant (hmade.ne_constant hread)
  · refine ⟨input, hcause, fun hpath => ?_, hpasses, hread⟩
    -- at the task itself the argument would be missing
    rw [hpath] at hpasses hthere'
    obtain rfl := Option.some.inj (h.at?_self.symm.trans hthere')
    rcases hpasses.within with ⟨-, rfl⟩ | ⟨id, inner, hcontra⟩
    · have hlost : Keyed.has (Keyed.without here.arguments input) input = false := by
        rw [Keyed.has, Keyed.find?_without_self]
        rfl
      exact h.required.missing hlost hgiven
    · have hlength := congrArg List.length hcontra
      simp only [List.length_append, List.length_cons] at hlength
      omega

/-- **If the argument is missing at the task**, no container within it reads the data as a file. -/
theorem missing (hkind : e.cause.diagnosis.kind = .missingArgument) (hpath : e.taskPath = way) :
    e.cause = .missingArgument name ∧ ∀ path input,
      ¬ ReadsFileWithin c name way path input := by
  obtain ⟨s', name', here', blueprint, final, hcause, hmakes, hread, hfails⟩ :=
    compile_misses herror hkind (hpath ▸ h.nested)
  rw [hpath] at hmakes
  obtain rfl := Option.some.inj (h.at?_self.symm.trans hmakes.place)
  constructor
  · obtain ⟨names, hnames, hsame⟩ := hmakes.needs
    have hneeds := (needs_without here.arguments h.unlooked).symm.trans hnames
    have hname : name' = name := by
      by_contra hne
      obtain ⟨id, outer, hway⟩ :=
        List.exists_cons_of_ne_nil (List.reverse_ne_nil_iff.mpr h.nested)
      have hgiven := hmade.given (hway ▸ h.place) hneeds name' ((hsame name').mp hread)
      exact hfails ((checkInput_without _ _ hne).trans hgiven)
    exact hname ▸ hcause
  -- the graph around such a container was made before, and would have refused the data
  · rintro path input ⟨hne, hpasses, hfile⟩
    rcases hpasses.within with ⟨heq, -⟩ | ⟨id, inner, rfl⟩
    · exact hne heq
    have hfile' := h.readsFile_iff.mpr hfile
    have ⟨there, _, _, hthere, _⟩ := hfile'
    obtain ⟨around, _, _, haround, -⟩ := at?_cons.mp hthere
    obtain ⟨made, hmade'⟩ := hmakes.within haround
    exact hmade'.ne_constant hfile' (hpasses.constant h.nested h.place h.required)

end Reports

end CanLose

/-! ### Pipelines without an argument -/

/-- How the compilation of a pipeline ends that has lost an argument.  If its input is not read,
    there is still a workflow.  If it is read, the argument is missing at the task, unless a
    container within the task reads the data as a file: what is not there counts as a constant in
    the task, and a constant is refused there first. -/
structure EndsWithout (c : Component) (name : String) (way : List String) (isRead : Prop)
    (result : Except Failure Workflow) : Prop where
  unread : ¬ isRead → ∃ w, result = .ok w
  missing : isRead → (∀ path input, ¬ ReadsFileWithin c name way path input) →
    result = .error (.compilation { cause := .missingArgument name, taskPath := way })
  refused : ∀ path input, ReadsFileWithin c name way path input → isRead ∧
    ∃ e refused, result = .error (.compilation e) ∧ e.cause = .constantArtifact refused ∧
      ReadsFileWithin c name way e.taskPath.reverse refused

/-- **Workflows without an argument.**  Whatever pipeline has a workflow, in whatever context and
    with whatever arguments, and whichever task in it at whatever depth loses an argument that an
    input requires and that no condition looks at: when the template of the task does not read the
    input, there is still a workflow; when it does, the argument is missing at the task, unless a
    container within the task reads the data as a file, where it is refused. -/
theorem compile_unbind {overrides metadata : Value} {context : Context}
    (hcontext : (Context.create "argo" overrides metadata).result = .ok context)
    (hnamed : c.Throughout fun inner => IsStem inner.name) {arguments : Keyed Value} {w : Workflow}
    (hok : (compile context c arguments).result = .ok w) (h : CanLose c name way here) :
    ∃ s blueprint, context.settings = .ok s ∧
      Makes (· ∈ (compile context c arguments).digested) s c w.templates way.reverse here
        blueprint ∧
      EndsWithout c name way (name ∈ blueprint.parameters ++ blueprint.artifacts)
        (compile context (c.unbind name way) arguments).result := by
  obtain ⟨s, hs, hcomplete⟩ := exists_complete hcontext
  obtain ⟨s', root, names, hs', hmade, hnames, hgiven, hshown⟩ :=
    compile_given (Recorded.yields_of_result hok)
  obtain rfl := Except.ok.inj (hs.symm.trans hs')
  obtain ⟨blueprint, hmakes, -⟩ := hmade.exists_makes h.place
  obtain ⟨read, hread, hsame⟩ := hmakes.needs
  refine ⟨s, blueprint, hs, hmakes, ?_⟩
  rw [hsame name]
  have htexts : (c.unbind name way).givenTexts arguments = c.givenTexts arguments := by
    rw [Component.givenTexts, unbind_inputs, Component.givenTexts]
  have hagrees := compile_checked hs hcomplete
    (h.plainThroughout hread hmade (hmade.plain hnamed)) hshown
  rw [htexts] at hagrees
  obtain ⟨hunread, hmissing⟩ := h.check hread hnames hgiven rfl
  cases hresult : (compile context (c.unbind name way) arguments).result with
  | ok w' =>
    rw [hresult] at hagrees
    -- the check passes as well, so that the input is not read
    have hnot : name ∉ read := fun hmem => by
      rw [hmissing hmem] at hagrees
      cases hagrees
    exact ⟨fun _ => ⟨w', rfl⟩, fun hmem => absurd hmem hnot,
      fun path input hwithin => absurd (h.mem_read hread hmade hwithin) hnot⟩
  | error failure =>
    rw [hresult] at hagrees
    generalize hchecked : (_ >>= _ : Except Failure Unit) = checked at hagrees
    cases hagrees with
    | neither alike =>
      have hmem : name ∈ read := by
        by_contra hnot
        cases (hunread hnot).symm.trans hchecked
      obtain rfl := Except.error.inj ((hmissing hmem).symm.trans hchecked)
      obtain ⟨kind, path, -, hverdict, hsame⟩ := alike
      obtain ⟨rfl, rfl⟩ := Prod.mk.inj (Option.some.inj hsame)
      obtain ⟨e, rfl, hkind, hpath⟩ := Failure.verdict?_eq_some.mp hverdict
      obtain ⟨hcause, hnone⟩ := h.missing hmade hresult hkind hpath
      refine ⟨fun hnot => absurd hmem hnot, fun _ _ => ?_,
        fun path input hwithin => absurd hwithin (hnone path input)⟩
      obtain ⟨cause, taskPath⟩ := e
      obtain rfl : cause = .missingArgument name := hcause
      obtain rfl : taskPath = way := hpath
      rfl
    | stopped stops =>
      obtain ⟨-, path, hverdict⟩ := stops
      obtain ⟨e, rfl, hkind, -⟩ := Failure.verdict?_eq_some.mp hverdict
      obtain ⟨input, hcause, hwithin⟩ := h.refused hmade hresult hkind
      have hmem := h.mem_read hread hmade hwithin
      exact ⟨fun hnot => absurd hmem hnot, fun _ hnone => absurd hwithin (hnone _ _),
        fun _ _ _ => ⟨hmem, e, input, rfl, hcause, hwithin⟩⟩

/-! ### The examples -/

/-- A pipeline that passes the output of the producer into a graph around a container, the command
    line of which has one part. -/
def pipelineAround (part : Placeholder) : Component :=
  let reader : Component := { sampleConsumer with
    implementation := .container { image := "a", args := some [part] } }
  let graph : Component := { sampleGraph with
    implementation := .graph
      { tasks := [("r", sampleTask reader [("x", .graphInput "y" .null)])], outputValues := [] } }
  { samplePipeline with
    implementation := .graph
      { tasks := [
          ("p", sampleTask sampleProducer []),
          ("q", sampleTask graph [("y", .taskOutput { task := "p", output := "o" })])]
        outputValues := [] } }

/-- All names in it are texts. -/
theorem pipelineAround_named (part : Placeholder) :
    (pipelineAround part).Throughout fun inner => IsStem inner.name := by
  refine .intro (.inr ⟨"c", rfl⟩) fun g himpl entry hentry component hspec => ?_
  obtain rfl := Implementation.graph.inj himpl
  simp only [List.mem_cons, List.not_mem_nil, or_false] at hentry
  rcases hentry with rfl | rfl
  · obtain rfl := Option.some.inj hspec
    exact .intro (.inr ⟨"a", rfl⟩) fun g himpl => nomatch himpl
  · obtain rfl := Option.some.inj hspec
    refine .intro (.inr ⟨"b", rfl⟩) fun g himpl entry hentry component hspec => ?_
    obtain rfl := Implementation.graph.inj himpl
    obtain rfl := List.mem_singleton.mp hentry
    obtain rfl := Option.some.inj hspec
    exact .intro (.inr ⟨"a", rfl⟩) fun g himpl => nomatch himpl

/-- The graph in it can lose its argument. -/
theorem pipelineAround_canLose (part : Placeholder) :
    ∃ here, CanLose (pipelineAround part) "y" ["q"] here :=
  ⟨_, List.cons_ne_nil _ _, rfl, ⟨_, rfl, rfl, rfl⟩, fun _ himpl => nomatch himpl⟩

/-- The default configuration for workflows. -/
def defaultContext : Context := { target := "argo", config := Config.defaults }

/-- There is a workflow if the part is the value of the input or its file, and without the argument
    the file is refused. -/
theorem pipelineAround_runs :
    (∀ part ∈ [Placeholder.inputValue "x", .inputPath "x"],
      (compile defaultContext (pipelineAround part) []).result.toOption.isSome = true) ∧
    (failure? (compile defaultContext
      ((pipelineAround (.inputPath "x")).unbind "y" ["q"]) []).result).bind Failure.verdict? =
        some (.constantArtifact, ["q", "r"]) := by
  -- the runs are evaluated one at a time, because each works out all digests of its names
  refine ⟨List.forall_mem_cons.mpr ⟨?_, List.forall_mem_singleton.mpr ?_⟩, ?_⟩
  · decide +kernel
  · decide +kernel
  · decide +kernel

/-- The pipeline around a container that reads the value ends so without the argument of the
    graph. -/
theorem pipelineAround_unbind :
    ∃ context w here s blueprint,
      (Context.create "argo" .null .null).result = .ok context ∧
      (pipelineAround (.inputValue "x")).Throughout (fun inner => IsStem inner.name) ∧
      (compile context (pipelineAround (.inputValue "x")) []).result = .ok w ∧
      CanLose (pipelineAround (.inputValue "x")) "y" ["q"] here ∧ context.settings = .ok s ∧
      Makes (· ∈ (compile context (pipelineAround (.inputValue "x")) []).digested) s
        (pipelineAround (.inputValue "x")) w.templates ["q"] here blueprint ∧
      EndsWithout (pipelineAround (.inputValue "x")) "y" ["q"]
        ("y" ∈ blueprint.parameters ++ blueprint.artifacts)
        (compile context ((pipelineAround (.inputValue "x")).unbind "y" ["q"]) []).result := by
  have hnamed := pipelineAround_named (.inputValue "x")
  obtain ⟨here, hlose⟩ := pipelineAround_canLose (.inputValue "x")
  obtain ⟨w, hw⟩ :=
    Option.isSome_iff_exists.mp (pipelineAround_runs.1 (.inputValue "x") (by simp))
  have hok := toOption_eq_some.mp hw
  obtain ⟨s, blueprint, hs, hmakes, hends⟩ :=
    compile_unbind (create_default "argo") hnamed hok hlose
  exact ⟨_, w, here, s, blueprint, create_default "argo", hnamed, hok, hlose, hs, hmakes, hends⟩

/-- **Around a container that reads the file the argument is not reported as missing**, although
    an input that requires it is read: a constant is refused within the graph instead. -/
theorem pipelineAround_refused :
    ∃ context w here e,
      (Context.create "argo" .null .null).result = .ok context ∧
      (pipelineAround (.inputPath "x")).Throughout (fun inner => IsStem inner.name) ∧
      (compile context (pipelineAround (.inputPath "x")) []).result = .ok w ∧
      CanLose (pipelineAround (.inputPath "x")) "y" ["q"] here ∧
      here.component.argumentFor here.arguments "y" =
        .taskOutput { task := "p", output := "o" } ∧
      (compile context ((pipelineAround (.inputPath "x")).unbind "y" ["q"]) []).result =
        .error (.compilation e) ∧
      e.cause.diagnosis.kind = .constantArtifact ∧ e.taskPath = ["q", "r"] := by
  obtain ⟨hcompiles, hverdict⟩ := pipelineAround_runs
  obtain ⟨here, hlose⟩ := pipelineAround_canLose (.inputPath "x")
  have hargument : here.component.argumentFor here.arguments "y" =
      .taskOutput { task := "p", output := "o" } := by
    obtain rfl := Option.some.inj hlose.place
    rfl
  obtain ⟨w, hw⟩ := Option.isSome_iff_exists.mp (hcompiles (.inputPath "x") (by simp))
  have hok := toOption_eq_some.mp hw
  obtain ⟨e, herror, hkind, hpath⟩ := exists_error_of_verdict hverdict
  exact ⟨_, w, here, e, create_default "argo", pipelineAround_named _, hok, hlose, hargument,
    herror, hkind, hpath⟩

end PipelineCompiler.Argo
