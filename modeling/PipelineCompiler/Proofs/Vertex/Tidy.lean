import PipelineCompiler.Proofs.Component.Loaded
import PipelineCompiler.Proofs.Number.Digits
import PipelineCompiler.Proofs.Vertex.Compile
import PipelineCompiler.Proofs.Vertex.Constant

namespace PipelineCompiler

/-!
# Jobs are tidy

No name stands twice in a job, and its constants are what texts stand for.  Digests do not matter
for that: an entry is added under a name that is new.

* `Keyed.Tidy` — entries with different keys, and something that holds of their values;
* `Vertex.Constant.IsRead`, `Vertex.ComponentEntry.IsTidy`, `Vertex.JobTask.IsTidy` — what holds
  of the parts of a job;
* `Vertex.Draft.Tidy` — the invariant of a draft, which every step keeps;
* `Vertex.compile_tidy` — every job is tidy.
-/

/-! ### Entries -/

namespace Keyed

variable {α : Type} {holds : α → Prop} {entries : Keyed α}

/-- Entries with different keys, and something that holds of their values. -/
structure Tidy (holds : α → Prop) (entries : Keyed α) : Prop where
  nodup : (keys entries).Nodup
  each : ∀ entry ∈ entries, holds entry.2

/-- There are no entries. -/
theorem tidy_nil (holds : α → Prop) : Tidy holds [] :=
  ⟨List.nodup_nil, fun _ hentry => nomatch hentry⟩

/-- A key is written. -/
theorem Tidy.put (h : Tidy holds entries) (key : String) {v : α} (hv : holds v) :
    Tidy holds (put entries key v) := by
  refine ⟨nodup_put h.nodup key v, fun entry hentry => ?_⟩
  rcases mem_put hentry with hentry | rfl
  · exact h.each entry hentry
  · exact hv

/-- An entry with a new key is added. -/
theorem Tidy.concat (h : Tidy holds entries) {key : String} (hnew : key ∉ keys entries) {v : α}
    (hv : holds v) : Tidy holds (entries ++ [(key, v)]) :=
  put_of_not_mem hnew v ▸ h.put key hv

end Keyed

/-- **A part that is interned** is added under a new name, or not at all. -/
theorem Registry.intern_tidy {P : String → Prop} {α : Type} {holds : α → Prop}
    {r r' : Registry α}
    (h : Keyed.Tidy holds r.entries) {record : α → Value} {stem : Except Failure String}
    {part : α}
    (hpart : holds part) {name : String} {isNew : Bool}
    (hyields : (r.intern record stem part).Yields P (name, isNew, r')) :
    Keyed.Tidy holds r'.entries := by
  unfold Registry.intern at hyields
  obtain ⟨key, -, hyields⟩ := Recorded.yields_bind.mp hyields
  obtain ⟨⟨given, names⟩, -, hyields⟩ := Recorded.yields_bind.mp hyields
  dsimp only at hyields
  -- The part may be there already; if not, its name is new.
  split at hyields
  next =>
    obtain ⟨-, heq⟩ := Recorded.yields_pure_pair hyields
    obtain ⟨-, rfl⟩ := Prod.mk.inj heq
    exact h
  next hnew =>
    obtain ⟨-, heq⟩ := Recorded.yields_pure_pair hyields
    obtain ⟨-, rfl⟩ := Prod.mk.inj heq
    exact h.concat (fun hmem => hnew ((Keyed.has_iff_mem_keys _ _).mpr hmem)) hpart

/-! ### Parts of jobs -/

/-- An executor has a text for an image. -/
def Launch.HasImage (l : Launch) : Prop := ∃ image, l.image = .str image

/-- The image of conversions is a text. -/
def Settings.HasImage (s : Settings) : Prop :=
  ∃ image, s.value "converter_image" = .ok (.str image)

namespace Vertex

variable {P : String → Prop} {s : Settings}

/-- A constant is what a text stands for. -/
def Constant.IsRead (c : Constant) : Prop := ∃ type text, c.Stands type text

/-- What is read of a text is what it stands for. -/
theorem isRead_readOr (type : Value) (text : String) :
    (Constant.readOr text (PrimitiveType.ofType type)).1.IsRead :=
  ⟨type, text, readOr_stands type text⟩

/-- The constants of a parameter are what texts stand for. -/
def ParameterSource.IsRead (source : ParameterSource) : Prop :=
  ∀ c, source = .constant c → c.IsRead

/-- A text that is no number is a constant as it is. -/
theorem isRead_text (text : String) : (ParameterSource.constant (.string text)).IsRead := by
  rintro c heq
  obtain rfl := ParameterSource.constant.inj heq
  exact ⟨.null, text, rfl, fun hwhole => (nomatch hwhole), fun hreal => nomatch hreal⟩

/-- The names in a component are different. -/
structure ComponentEntry.IsTidy (c : ComponentEntry) : Prop where
  parameters : (Keyed.keys c.parameters).Nodup
  artifacts : c.artifacts.Nodup
  outputs : c.outputs.Nodup

/-- The names in a task are different, and its constants are what texts stand for. -/
structure JobTask.IsTidy (task : JobTask) : Prop where
  parameters : Keyed.Tidy ParameterSource.IsRead task.parameters
  artifacts : (Keyed.keys task.artifacts).Nodup

/-- The component of conversions. -/
theorem conversion_isTidy (executor : String) : (ComponentEntry.conversion executor).IsTidy :=
  ⟨List.nodup_singleton _, List.nodup_nil, List.nodup_singleton _⟩

/-- A conversion. -/
theorem conversionTask_isTidy (component : String) {source : ParameterSource} (h : source.IsRead)
    (caching : Bool) : (JobTask.conversion component source caching).IsTidy :=
  ⟨⟨List.nodup_singleton _, List.forall_mem_singleton.mpr h⟩, List.nodup_nil⟩

/-! ### Drafts -/

/-- No name stands twice in a draft, and its parts are as they should be. -/
structure Draft.Tidy (d : Draft) : Prop where
  executors : Keyed.Tidy Launch.HasImage d.executors.entries
  components : Keyed.Tidy ComponentEntry.IsTidy d.components.entries
  tasks : Keyed.Tidy JobTask.IsTidy d.tasks.entries
  parameters : d.parameters.Nodup
  artifacts : d.artifacts.Nodup

variable {d d' : Draft}

/-- An executor is added. -/
theorem addExecutor_tidy (h : d.Tidy) {stem : Except Failure String} {launch : Launch}
    (hlaunch : launch.HasImage) {name : String}
    (hyields : (d.addExecutor s stem launch).Yields P (name, d')) : d'.Tidy := by
  unfold Draft.addExecutor at hyields
  obtain ⟨⟨given, isNew, executors⟩, hintern, hyields⟩ := Recorded.yields_bind.mp hyields
  obtain ⟨-, rfl⟩ := Recorded.yields_pure_pair hyields
  exact { h with executors := Registry.intern_tidy h.executors hlaunch hintern }

/-- A component is added. -/
theorem addComponent_tidy (h : d.Tidy) {stem : Except Failure String} {place : String}
    {entry : ComponentEntry} (hentry : entry.IsTidy) {name : String}
    (hyields : (d.addComponent s stem place entry).Yields P (name, d')) : d'.Tidy := by
  unfold Draft.addComponent at hyields
  obtain ⟨⟨given, isNew, components⟩, hintern, hyields⟩ := Recorded.yields_bind.mp hyields
  dsimp only at hyields
  obtain ⟨-, rfl⟩ := Recorded.yields_pure_pair hyields.of_when
  exact { h with components := Registry.intern_tidy h.components hentry hintern }

/-- One more input is used as a parameter. -/
theorem Draft.Tidy.useInput (h : d.Tidy) (name : String) :
    Draft.Tidy { d with parameters := insertNew d.parameters name } :=
  { h with parameters := nodup_insertNew h.parameters name }

/-- A conversion is added. -/
theorem convert_tidy (hs : s.HasImage) (h : d.Tidy) {source : ParameterSource}
    (hsource : source.IsRead) {stem place : String} {artifact : ArtifactSource}
    (hyields : (d.convert s source stem place).Yields P (artifact, d')) : d'.Tidy := by
  unfold Draft.convert at hyields
  obtain ⟨launch, hlaunch, hyields⟩ := Recorded.yields_bind.mp hyields
  obtain ⟨image, himage⟩ := hs
  have hlaunch := Recorded.yields_lift.mp hlaunch
  -- What a conversion is launched with has an image, since the settings have one.
  rw [Draft.conversionLaunch, himage] at hlaunch
  obtain rfl := pure_eq_ok.mp hlaunch
  obtain ⟨⟨executor, d₁⟩, hadd, hyields⟩ := Recorded.yields_bind.mp hyields
  have h₁ := addExecutor_tidy h ⟨image, rfl⟩ hadd
  obtain ⟨⟨component, d₂⟩, hadd', hyields⟩ := Recorded.yields_bind.mp hyields
  have h₂ := addComponent_tidy h₁ (conversion_isTidy executor) hadd'
  obtain ⟨caching, -, hyields⟩ := Recorded.yields_bind.mp hyields
  obtain ⟨⟨name, isNew, tasks⟩, hintern, hyields⟩ := Recorded.yields_bind.mp hyields
  dsimp only at hyields
  obtain ⟨-, rfl⟩ := Recorded.yields_pure_pair hyields.of_when
  have htask := conversionTask_isTidy component hsource caching
  exact { h₂ with tasks := Registry.intern_tidy h₂.tasks htask hintern }

/-- What an input parameter is bound to. -/
theorem parameterFor_tidy (h : d.Tidy) {declared : Value} {place : String} {argument : Argument}
    {source : ParameterSource}
    (hyields : (d.parameterFor declared place argument).Yields P (source, d')) :
    d'.Tidy ∧ source.IsRead := by
  -- A constant was read from its text, which is what makes it tidy; other sources are names.
  cases argument with
  | literal text =>
    unfold Draft.parameterFor at hyields
    dsimp only at hyields
    obtain ⟨rfl, rfl⟩ := Recorded.yields_pure_pair hyields.of_when
    refine ⟨h, fun c heq => ?_⟩
    exact ParameterSource.constant.inj heq ▸ isRead_readOr declared text
  | graphInput input type =>
    obtain ⟨rfl, rfl⟩ := Recorded.yields_pure_pair hyields
    exact ⟨h.useInput input, fun _ heq => by cases heq⟩
  | taskOutput output =>
    unfold Draft.parameterFor at hyields
    obtain ⟨task, -, hyields⟩ := Recorded.yields_bind.mp hyields
    obtain ⟨rfl, rfl⟩ := Recorded.yields_pure_pair hyields
    exact ⟨h, fun _ heq => nomatch heq⟩

/-- What an input artifact is bound to. -/
theorem artifactFor_tidy (hs : s.HasImage) (h : d.Tidy) {parameters : List String}
    {place : String} {argument : Argument} {source : ArtifactSource}
    (hyields : (d.artifactFor s parameters place argument).Yields P (source, d')) : d'.Tidy := by
  -- A constant and an input of the pipeline are converted, unless the input is an artifact.
  cases argument with
  | literal text => exact convert_tidy hs h (isRead_text text) hyields
  | graphInput input type =>
    unfold Draft.artifactFor at hyields
    dsimp only at hyields
    split at hyields
    next => exact convert_tidy hs (h.useInput input) (fun _ heq => by cases heq) hyields
    next =>
      obtain ⟨-, rfl⟩ := Recorded.yields_pure_pair hyields
      exact { h with artifacts := nodup_insertNew h.artifacts input }
  | taskOutput output =>
    unfold Draft.artifactFor at hyields
    obtain ⟨task, -, hyields⟩ := Recorded.yields_bind.mp hyields
    obtain ⟨-, rfl⟩ := Recorded.yields_pure_pair hyields
    exact h

/-! ### Tasks -/

variable {b : Binder} {names : List String}

/-- **The bindings of input parameters** have the names of the inputs. -/
theorem bindParameters_tidy {bindings : Keyed ParameterSource} (h : d.Tidy)
    (hyields : (b.bindParameters names d).Yields P (bindings, d')) :
    d'.Tidy ∧ Keyed.keys bindings = names ∧ ∀ entry ∈ bindings, entry.2.IsRead := by
  -- By induction on the names, which the bindings take over.
  induction names generalizing d d' bindings with
  | nil =>
    obtain ⟨rfl, rfl⟩ := Recorded.yields_pure_pair hyields
    exact ⟨h, rfl, fun _ hentry => nomatch hentry⟩
  | cons name rest ih =>
    unfold Binder.bindParameters at hyields
    obtain ⟨input, -, hyields⟩ := Recorded.yields_bind.mp hyields
    obtain ⟨argument, -, hyields⟩ := Recorded.yields_bind.mp hyields
    obtain ⟨⟨source, d₁⟩, hsource, hyields⟩ := Recorded.yields_bind.mp hyields
    obtain ⟨h₁, hread⟩ := parameterFor_tidy h hsource
    obtain ⟨⟨others, d₂⟩, hrest, hyields⟩ := Recorded.yields_bind.mp hyields
    obtain ⟨h₂, hkeys, hothers⟩ := ih h₁ hrest
    obtain ⟨rfl, rfl⟩ := Recorded.yields_pure_pair hyields
    refine ⟨h₂, ?_, List.forall_mem_cons.mpr ⟨hread, hothers⟩⟩
    rw [← hkeys]
    rfl

/-- **The bindings of input artifacts** have the names of the inputs. -/
theorem bindArtifacts_tidy (hs : s.HasImage) {bindings : Keyed ArtifactSource}
    (h : d.Tidy) (hyields : (b.bindArtifacts s names d).Yields P (bindings, d')) :
    d'.Tidy ∧ Keyed.keys bindings = names := by
  -- By induction on the inputs; each binding has the name of its input.
  induction names generalizing d d' bindings with
  | nil =>
    obtain ⟨rfl, rfl⟩ := Recorded.yields_pure_pair hyields
    exact ⟨h, rfl⟩
  | cons name rest ih =>
    unfold Binder.bindArtifacts at hyields
    obtain ⟨input, -, hyields⟩ := Recorded.yields_bind.mp hyields
    obtain ⟨argument, -, hyields⟩ := Recorded.yields_bind.mp hyields
    obtain ⟨⟨source, d₁⟩, hsource, hyields⟩ := Recorded.yields_bind.mp hyields
    obtain ⟨⟨others, d₂⟩, hrest, hyields⟩ := Recorded.yields_bind.mp hyields
    obtain ⟨h₂, hkeys⟩ := ih (artifactFor_tidy hs h hsource) hrest
    obtain ⟨rfl, rfl⟩ := Recorded.yields_pure_pair hyields
    refine ⟨h₂, ?_⟩
    rw [← hkeys]
    rfl

/-- The inputs that a command line lists are different. -/
theorem commandLine_nodup {x : Expander} {container : Container} {line : CommandLine}
    (h : x.commandLine container = .ok line) :
    line.valueInputs.Nodup ∧ line.pathInputs.Nodup := by
  rw [commandLine_eq] at h
  obtain ⟨parts, -, rfl⟩ := map_eq_ok.mp h
  exact ⟨nodup_foldl_insertNew List.nodup_nil, nodup_foldl_insertNew List.nodup_nil⟩

/-- **A task is added.** -/
theorem addTask_tidy (hs : s.HasImage) (h : d.Tidy) {container : Container}
    (houtputs : b.component.outputNames.Nodup)
    (hyields : (addTask s b container d).Yields P d') : d'.Tidy := by
  -- The executor, the component, the bindings and the task, one after another; each keeps the draft
  -- tidy.
  unfold addTask at hyields
  obtain ⟨line, hline, hyields⟩ := Recorded.yields_bind.mp hyields
  obtain ⟨hvalues, hpaths⟩ := commandLine_nodup (Recorded.yields_lift.mp hline)
  obtain ⟨⟨executor, d₁⟩, hadd, hyields⟩ := Recorded.yields_bind.mp hyields
  have h₁ := addExecutor_tidy h ⟨container.image, rfl⟩ hadd
  obtain ⟨types, htypes, hyields⟩ := Recorded.yields_bind.mp hyields
  obtain rfl := typesOf_spec (Recorded.yields_lift.mp htypes)
  obtain ⟨⟨entry, d₂⟩, hadd', hyields⟩ := Recorded.yields_bind.mp hyields
  have hentry : (ComponentEntry.step (declaredTypes b.component line.valueInputs) line.pathInputs
      b.component.outputNames executor).IsTidy :=
    ⟨(keys_declaredTypes _ _).symm ▸ hvalues, hpaths, houtputs⟩
  have h₂ := addComponent_tidy h₁ hentry hadd'
  obtain ⟨⟨parameters, d₃⟩, hparameters, hyields⟩ := Recorded.yields_bind.mp hyields
  obtain ⟨h₃, hkeys, hread⟩ := bindParameters_tidy h₂ hparameters
  obtain ⟨⟨artifacts, d₄⟩, hartifacts, hyields⟩ := Recorded.yields_bind.mp hyields
  obtain ⟨h₄, hkeys'⟩ := bindArtifacts_tidy hs h₃ hartifacts
  obtain ⟨caching, -, hyields⟩ := Recorded.yields_bind.mp hyields
  obtain ⟨name, -, hyields⟩ := Recorded.yields_bind.mp hyields
  obtain ⟨u, -, hyields⟩ := Recorded.yields_bind.mp hyields
  obtain rfl := Recorded.yields_pure.mp hyields
  have htask : (JobTask.step b.id entry parameters artifacts caching).IsTidy :=
    ⟨⟨hkeys.symm ▸ hvalues, hread⟩, hkeys'.symm ▸ hpaths⟩
  exact { h₄ with tasks := h₄.tasks.put name htask }

/-- **The tasks of a graph** are added one after another. -/
theorem compileTasks_tidy (hs : s.HasImage) {g : Graph} {inputs order : List String}
    (houtputs : ∀ entry ∈ g.tasks, ∀ component, entry.2.reference.spec = some component →
      component.outputNames.Nodup) (h : d.Tidy)
    (hyields : (compileTasks s g inputs order d).Yields P d') : d'.Tidy := by
  -- By induction on the order; a task without a container has failed by then.
  induction order generalizing d with
  | nil => exact Recorded.yields_pure.mp hyields ▸ h
  | cons id rest ih =>
    unfold compileTasks at hyields
    obtain ⟨task, htask, hyields⟩ := Recorded.yields_bind.mp hyields
    have hmem := Keyed.mem_of_find? (fetch_eq_ok.mp (Recorded.yields_lift.mp htask))
    obtain ⟨d₁, hd₁, hyields⟩ := Recorded.yields_bind.mp hyields
    refine ih ?_ hyields
    have hd₁ := Recorded.yields_within.mp hd₁
    unfold compileTask at hd₁
    split at hd₁
    next => exact absurd hd₁ Recorded.not_yields_throw
    next component hspec =>
      split at hd₁
      next => exact absurd hd₁ Recorded.not_yields_throw
      next container hcontainer =>
        exact addTask_tidy hs h (houtputs _ hmem component hspec) hd₁

/-! ### Jobs -/

/-- No name stands twice in a job, and its parts are as they should be. -/
structure Job.Tidy (j : Job) : Prop where
  executors : Keyed.Tidy Launch.HasImage j.executors
  components : Keyed.Tidy ComponentEntry.IsTidy j.components
  tasks : Keyed.Tidy JobTask.IsTidy j.root.tasks
  inputs : (Keyed.keys j.root.parameters).Nodup
  artifacts : j.root.artifacts.Nodup
  outputs : (Keyed.keys j.root.outputs).Nodup
  values : Keyed.Tidy Constant.IsRead j.parameters

/-- The outputs of a graph have the names that the graph gives them. -/
theorem keys_outputsOf {sources : List (String × TaskOutput)} {outputs : Keyed (String × String)}
    (h : outputsOf d sources = .ok outputs) : Keyed.keys outputs = Keyed.keys sources := by
  induction sources generalizing outputs with
  | nil => exact Except.ok.inj h ▸ rfl
  | cons entry rest ih =>
    obtain ⟨name, source⟩ := entry
    unfold outputsOf at h
    obtain ⟨task, -, h⟩ := bind_eq_ok.mp h
    obtain ⟨others, hothers, h⟩ := bind_eq_ok.mp h
    obtain rfl := pure_eq_ok.mp h
    rw [Keyed.keys, List.map_cons, ← Keyed.keys, ih hothers]
    rfl

/-- What is left of the compilation of a graph without an assumption on digests. -/
theorem compileGraph_tidy (hs : s.HasImage) {c : Component} {g : Graph} {root : Root}
    (houtputs : ∀ entry ∈ g.tasks, ∀ component, entry.2.reference.spec = some component →
      component.outputNames.Nodup) (hvalues : (Keyed.keys g.outputValues).Nodup)
    (hyields : (compileGraph s c g).Yields P (root, d)) :
    d.Tidy ∧ root.parameters = declaredTypes c d.parameters ∧ root.artifacts = d.artifacts ∧
      root.tasks = d.tasks.entries ∧ (Keyed.keys root.outputs).Nodup := by
  unfold compileGraph at hyields
  obtain ⟨order, -, hyields⟩ := Recorded.yields_bind.mp hyields
  -- only a graph with tasks asks for the length of names
  dsimp only at hyields
  have hyields := hyields.of_unless
  obtain ⟨start, hstart, hyields⟩ := Recorded.yields_bind.mp hyields
  have hstart := Recorded.yields_lift.mp hstart
  rw [reserveAll_eq] at hstart
  obtain ⟨given, -, rfl⟩ := map_eq_ok.mp hstart
  obtain ⟨d', hrun, hyields⟩ := Recorded.yields_bind.mp hyields
  have hempty : Draft.Tidy { Draft.empty s.policy with
      tasks := { (Draft.empty s.policy).tasks with names := given.2 }, taskNames := given.1 } :=
    ⟨Keyed.tidy_nil _, Keyed.tidy_nil _, Keyed.tidy_nil _, List.nodup_nil, List.nodup_nil⟩
  have h := compileTasks_tidy hs houtputs hempty hrun
  obtain ⟨parameters, hparameters, hyields⟩ := Recorded.yields_bind.mp hyields
  obtain ⟨outputs, hout, hyields⟩ := Recorded.yields_bind.mp hyields
  obtain ⟨rfl, rfl⟩ := Recorded.yields_pure_pair hyields
  refine ⟨h, typesOf_spec (Recorded.yields_lift.mp hparameters), rfl, rfl, ?_⟩
  rw [keys_outputsOf (Recorded.yields_lift.mp hout)]
  exact hvalues

/-- The graph of a component whose names differ. -/
theorem asGraph_differ {c : Component} (hnames : c.Throughout Component.NamesDiffer) {g : Graph}
    (hg : asGraph c = .ok g) :
    (∀ entry ∈ g.tasks, ∀ component, entry.2.reference.spec = some component →
      component.outputNames.Nodup) ∧ (Keyed.keys g.outputValues).Nodup := by
  obtain ⟨here, inner⟩ := hnames
  unfold asGraph at hg
  split at hg
  next g' himpl =>
    obtain rfl := Except.ok.inj hg
    exact ⟨fun entry hentry component hspec =>
      (inner g' himpl entry hentry component hspec).self.outputs, here.outputValues g' himpl⟩
  next =>
    -- the only task of the graph around a container is the container
    obtain ⟨id, -, hg⟩ := bind_eq_ok.mp hg
    obtain rfl := pure_eq_ok.mp hg
    refine ⟨fun entry hentry component hspec => ?_, ?_⟩
    · obtain rfl := List.mem_singleton.mp hentry
      exact Option.some.inj hspec ▸ here.outputs
    · have hkeys : Keyed.keys (c.outputNames.map fun name =>
          (name, ({ task := id, output := name } : TaskOutput))) = c.outputNames := by
        simp [Keyed.keys, Function.comp_def]
      exact hkeys.symm ▸ here.outputs

/-- **Every job is tidy**, if the names in the pipeline are different. -/
theorem compile_tidy {context : Context} {c : Component} {arguments : Keyed Value}
    {outputDirectory contextName : String} {job : Job}
    (hs : ∀ s, context.settings = .ok s → s.HasImage)
    (hnames : c.Throughout Component.NamesDiffer)
    (hok : (compile context c arguments outputDirectory contextName).result = .ok job) :
    job.Tidy := by
  obtain ⟨s, g, d, hsettings, hg, hgraph, hexecutors, hcomponents, hparameters⟩ :=
    compile_run (Recorded.yields_true hok)
  obtain ⟨houtputs, hvalues⟩ := asGraph_differ hnames hg
  obtain ⟨h, htypes, hartifacts, htasks, hout⟩ :=
    compileGraph_tidy (hs s hsettings) houtputs hvalues hgraph
  rw [htypes] at hparameters
  have hroot := rootConstants_spec hparameters
  -- Everything but the constants is read off the draft at the end.
  exact {
    executors := hexecutors ▸ h.executors
    components := hcomponents ▸ h.components
    tasks := htasks ▸ h.tasks
    inputs := by
      rw [htypes, keys_declaredTypes]
      exact h.parameters
    artifacts := hartifacts ▸ h.artifacts
    outputs := hout
    values := by
      rw [hroot]
      refine ⟨(keys_rootValues _ _ _).symm ▸ h.parameters, fun entry hentry => ?_⟩
      obtain ⟨name, -, rfl⟩ := List.mem_map.mp hentry
      exact isRead_readOr _ _ }

end Vertex
end PipelineCompiler
