import PipelineCompiler.Argo.Scope
import PipelineCompiler.Proofs.Argo.Outline
import PipelineCompiler.Proofs.Argo.Reference
import PipelineCompiler.Proofs.Success

namespace PipelineCompiler.Argo

/-!
# What holds while the tasks of a graph are compiled

* `Fits`, `DagClosed`, `Template.Closed` — the bindings of tasks are for the inputs of their
  templates, and the inputs of a graph are those that its tasks refer to;
* `TemplatesSound`, `addTemplate_spec` — the invariant of the templates made so far, which is kept
  when a template is added;
* `Draft.Sound`, `Draft.Grows` — the invariant of the scope at hand, and what no step takes back;
* `Draft.Sound.cons`, `Draft.Sound.drop`, `Draft.Sound.share` — the changes that keep the
  invariant.

A template that is shared was made for another task.  All that is known of it is its outline, and
the lemmas speak of outlines for that reason.
-/

/-! ### Templates that are closed -/

/-- The references in the bindings of a task. -/
def DagTask.references (task : DagTask) : List Reference :=
  (task.parameters ++ task.artifacts).map (·.2)

/-- The bindings of a task are for the inputs of its template, in their order. -/
def Fits (templates : Keyed Template) (task : DagTask) : Prop :=
  ∃ t, Keyed.find? templates task.template = some t ∧
    task.parameters.map (·.1) = t.inputParameters ∧ task.artifacts.map (·.1) = t.inputArtifacts

/-- A reference to an input is one to a declared input. -/
def Declared (parameters artifacts : List String) : Reference → Prop
  | .parameter name => name ∈ parameters
  | .artifact name => name ∈ artifacts
  | _ => True

/-- The graph of a template: its tasks have different names and bind the inputs of their
    templates, they refer to declared inputs only, and to all of these. -/
structure DagClosed (templates : Keyed Template) (parameters artifacts : List String)
    (tasks : Keyed DagTask) : Prop where
  nodup : (Keyed.keys tasks).Nodup
  fits : ∀ entry ∈ tasks, Fits templates entry.2
  declared : ∀ entry ∈ tasks, ∀ reference ∈ entry.2.references,
    Declared parameters artifacts reference
  parametersUsed : ∀ name ∈ parameters,
    ∃ entry ∈ tasks, (Reference.parameter name).text ∈ entry.2.texts
  artifactsUsed : ∀ name ∈ artifacts,
    ∃ entry ∈ tasks, (Reference.artifact name).text ∈ entry.2.texts

/-- A template whose graph, if it has one, is closed. -/
def Template.Closed (templates : Keyed Template) : Template → Prop
  | .dag parameters artifacts _ tasks => DagClosed templates parameters artifacts tasks
  | _ => True

/-- Templates that were added change nothing for a task. -/
theorem Fits.mono {templates templates' : Keyed Template}
    (hw : Keyed.Within templates templates') {task : DagTask} (h : Fits templates task) :
    Fits templates' task := by
  obtain ⟨t, ht, hnames⟩ := h
  exact ⟨t, hw _ _ ht, hnames⟩

/-- Templates that were added change nothing for a template. -/
theorem Template.Closed.mono {templates templates' : Keyed Template}
    (hw : Keyed.Within templates templates') {t : Template} (h : t.Closed templates) :
    t.Closed templates' := by
  cases t with
  | dag parameters artifacts outputs tasks =>
    have hdag : DagClosed templates parameters artifacts tasks := h
    exact { hdag with fits := fun entry hentry => (hdag.fits entry hentry).mono hw }
  | container | conversion => trivial

/-- The texts of a task are those of its outline. -/
theorem texts_eq_outline (task : DagTask) :
    task.texts = Keyed.values task.outline.parameters ++ Keyed.values task.outline.artifacts := by
  simp [DagTask.texts, DagTask.outline, bindingTexts, Keyed.values, Function.comp_def]

/-! ### The templates made so far -/

variable {P : String → Prop} {s : Settings}

/-- The templates made so far: each is found under its name, and each is closed with those that were
    made before it. -/
structure TemplatesSound (P : String → Prop) (templates : Registry Template) : Prop where
  sound : templates.Sound P Template.record
  chained : Chained (fun earlier entry => entry.2.Closed earlier) templates.entries

/-- The templates made so far are closed. -/
theorem TemplatesSound.closed {templates : Registry Template} (h : TemplatesSound P templates) :
    ∀ entry ∈ templates.entries, entry.2.Closed templates.entries := by
  intro entry hentry
  obtain ⟨earlier, later, heq⟩ := List.append_of_mem hentry
  rw [heq]
  exact (h.chained earlier entry later heq).mono (Keyed.within_append _ _)

/-- The outline of the template with a name. -/
def outline? (templates : Registry Template) (name : String) : Option Outline :=
  (Keyed.find? templates.entries name).map Template.outline

/-- Outlines that are found are still found when templates were added. -/
theorem outline?_mono {templates templates' : Registry Template}
    (hw : Keyed.Within templates.entries templates'.entries) {name : String} {o : Outline}
    (h : outline? templates name = some o) : outline? templates' name = some o := by
  obtain ⟨t, ht, rfl⟩ := Option.map_eq_some_iff.mp h
  rw [outline?, hw _ _ ht]
  rfl

/-- A template that is added is interned. -/
theorem addTemplate_interned {templates templates' : Registry Template}
    {stem : Except Failure String} {path : List String} {t : Template} {name : String}
    (hyields : (addTemplate s templates stem path t).Yields P (name, templates')) :
    Registry.Interned P Template.record templates t name templates' := by
  unfold addTemplate at hyields
  obtain ⟨⟨given, isNew, added⟩, hintern, hyields⟩ := Recorded.yields_bind.mp hyields
  -- a note is taken of a new template, which changes nothing
  dsimp only at hyields
  obtain ⟨rfl, rfl⟩ := Recorded.yields_pure_pair hyields.of_when
  exact ⟨_, _, hintern⟩

/-- A template that is added may be shared. -/
theorem addTemplate_shared (hsep : Separates P) {templates templates' : Registry Template}
    (h : TemplatesSound P templates) {stem : Except Failure String} {path : List String}
    {t : Template} {name : String}
    (hyields : (addTemplate s templates stem path t).Yields P (name, templates')) :
    Registry.Shared P Template.record templates t name templates' :=
  (addTemplate_interned hyields).shared hsep h.sound

/-- **A template that is added or shared** leaves the templates sound, and the outline that was
    asked for is found under its name. -/
theorem TemplatesSound.share {templates templates' : Registry Template}
    (h : TemplatesSound P templates) {t : Template} (ht : t.Closed templates.entries)
    {name : String}
    (hshared : Registry.Shared P Template.record templates t name templates') :
    TemplatesSound P templates' ∧ templates.Grows templates' ∧
      outline? templates' name = some t.outline := by
  obtain ⟨found, hfind, hsame⟩ := hshared.found
  refine ⟨⟨hshared.sound, ?_⟩, hshared.grows, ?_⟩
  · rcases hshared.appended with heq | heq
    · rw [heq]
      exact h.chained
    · rw [heq]
      exact h.chained.concat ht
  · rw [outline?, hfind, Option.map_some, outline_of_sameRecord hsame]

/-- The same for a template that the code adds. -/
theorem addTemplate_spec (hsep : Separates P) {templates templates' : Registry Template}
    (h : TemplatesSound P templates) {stem : Except Failure String} {path : List String}
    {t : Template} (ht : t.Closed templates.entries) {name : String}
    (hyields : (addTemplate s templates stem path t).Yields P (name, templates')) :
    TemplatesSound P templates' ∧ templates.Grows templates' ∧
      outline? templates' name = some t.outline :=
  h.share ht (addTemplate_shared hsep h hyields)

/-! ### The scope at hand -/

/-- Declares a reference to an input of the graph, if it is one: the input has been used. -/
def Scope.Declares (scope : Scope) (reference : Reference) : Prop :=
  Declared (scope.parameters.map sanitizeIoName) (scope.artifacts.map sanitizeIoName) reference

/-- A text is written in a binding, of a task or of the task that is being compiled. -/
def Written (tasks : Keyed DagTask) (pending : List Reference) (text : String) : Prop :=
  (∃ reference ∈ pending, reference.text = text) ∨ ∃ entry ∈ tasks, text ∈ entry.2.texts

/-- A text that is written stays so while bindings and tasks are added. -/
theorem Written.mono {tasks tasks' : Keyed DagTask} {pending pending' : List Reference}
    {text : String} (h : Written tasks pending text)
    (hpending : ∀ reference ∈ pending, reference ∈ pending')
    (htasks : ∀ entry ∈ tasks, entry ∈ tasks') : Written tasks' pending' text := by
  rcases h with ⟨reference, hmem, htext⟩ | ⟨entry, hentry, htext⟩
  · exact .inl ⟨reference, hpending _ hmem, htext⟩
  · exact .inr ⟨entry, htasks _ hentry, htext⟩

/-- What holds while a graph is compiled.  The tasks `done` are compiled, and the references
    `pending` are bindings of the task that is being compiled. -/
structure Draft.Sound (P : String → Prop) (d : Draft) (done : List String)
    (pending : List Reference) : Prop where
  templates : TemplatesSound P d.templates
  tasks : d.scope.tasks.Sound P DagTask.record
  fits : ∀ entry ∈ d.scope.tasks.entries, Fits d.templates.entries entry.2
  /-- The names of the tasks of the graph are in use, and never those of conversions. -/
  reserved : ∀ id name, Keyed.find? d.scope.taskNames id = some name →
    name ∈ d.scope.tasks.names.used ∧ name ∉ d.scope.tasks.names.keptNames
  distinct : ∀ id id' name, Keyed.find? d.scope.taskNames id = some name →
    Keyed.find? d.scope.taskNames id' = some name → id = id'
  defined : ∀ name ∈ Keyed.keys d.scope.tasks.entries,
    name ∈ d.scope.tasks.names.keptNames ∨
      ∃ id ∈ done, Keyed.find? d.scope.taskNames id = some name
  declaredPending : ∀ reference ∈ pending, d.scope.Declares reference
  declared : ∀ entry ∈ d.scope.tasks.entries, ∀ reference ∈ entry.2.references,
    d.scope.Declares reference
  parametersUsed : ∀ input ∈ d.scope.parameters,
    Written d.scope.tasks.entries pending (Reference.parameter (sanitizeIoName input)).text
  artifactsUsed : ∀ input ∈ d.scope.artifacts,
    Written d.scope.tasks.entries pending (Reference.artifact (sanitizeIoName input)).text

/-- What no step on a draft takes back. -/
structure Draft.Grows (d d' : Draft) : Prop where
  templates : d.templates.Grows d'.templates
  tasks : d.scope.tasks.Grows d'.scope.tasks
  taskNames : d'.scope.taskNames = d.scope.taskNames
  kinds : d'.scope.kinds = d.scope.kinds
  path : d'.scope.path = d.scope.path
  parameters : ∀ input ∈ d.scope.parameters, input ∈ d'.scope.parameters
  artifacts : ∀ input ∈ d.scope.artifacts, input ∈ d'.scope.artifacts

namespace Draft

variable {d d' : Draft} {done : List String} {pending : List Reference}

/-- Nothing is done. -/
theorem Grows.refl (d : Draft) : d.Grows d :=
  ⟨.refl _, .refl _, rfl, rfl, rfl, fun _ h => h, fun _ h => h⟩

/-- Steps one after another. -/
theorem Grows.trans {d₁ d₂ d₃ : Draft} (h : d₁.Grows d₂) (h' : d₂.Grows d₃) :
    d₁.Grows d₃ where
  templates := h.templates.trans h'.templates
  tasks := h.tasks.trans h'.tasks
  taskNames := h'.taskNames.trans h.taskNames
  kinds := h'.kinds.trans h.kinds
  path := h'.path.trans h.path
  parameters := fun input hinput => h'.parameters input (h.parameters input hinput)
  artifacts := fun input hinput => h'.artifacts input (h.artifacts input hinput)

/-- A binding to something declared may be added. -/
theorem Sound.cons (h : d.Sound P done pending) {reference : Reference}
    (href : d.scope.Declares reference) : d.Sound P done (reference :: pending) where
  templates := h.templates
  tasks := h.tasks
  fits := h.fits
  reserved := h.reserved
  distinct := h.distinct
  defined := h.defined
  declaredPending := by
    intro r hr
    rcases List.mem_cons.mp hr with rfl | hr
    · exact href
    · exact h.declaredPending r hr
  declared := h.declared
  parametersUsed := fun input hinput => (h.parametersUsed input hinput).mono
    (fun _ hr => List.mem_cons_of_mem _ hr) fun _ hentry => hentry
  artifactsUsed := fun input hinput => (h.artifactsUsed input hinput).mono
    (fun _ hr => List.mem_cons_of_mem _ hr) fun _ hentry => hentry

/-- A binding may be forgotten when its text is written in a task. -/
theorem Sound.drop {reference : Reference} (h : d.Sound P done (reference :: pending))
    (htext : ∃ entry ∈ d.scope.tasks.entries, reference.text ∈ entry.2.texts) :
    d.Sound P done pending := by
  have hwritten : ∀ text, Written d.scope.tasks.entries (reference :: pending) text →
      Written d.scope.tasks.entries pending text := by
    rintro text (⟨r, hr, rfl⟩ | hentry)
    · rcases List.mem_cons.mp hr with rfl | hr
      · exact .inr htext
      · exact .inl ⟨r, hr, rfl⟩
    · exact .inr hentry
  exact { h with
    declaredPending := fun r hr => h.declaredPending r (List.mem_cons_of_mem _ hr)
    parametersUsed := fun input hinput => hwritten _ (h.parametersUsed input hinput)
    artifactsUsed := fun input hinput => hwritten _ (h.artifactsUsed input hinput) }

/-- Templates may be added. -/
theorem Sound.withTemplates (h : d.Sound P done pending) {templates : Registry Template}
    (ht : TemplatesSound P templates) (hgrows : d.templates.Grows templates) :
    Sound P { d with templates } done pending :=
  { h with
    templates := ht
    fits := fun entry hentry => (h.fits entry hentry).mono hgrows.within }

/-- Templates that are added are a growth of the draft. -/
theorem grows_withTemplates {templates : Registry Template}
    (hgrows : d.templates.Grows templates) : d.Grows { d with templates } :=
  { Grows.refl d with templates := hgrows }

/-- Tasks that are added are a growth of the draft. -/
theorem grows_withTasks {tasks : Registry DagTask} (hgrows : d.scope.tasks.Grows tasks) :
    d.Grows { d with scope := { d.scope with tasks } } :=
  { Grows.refl d with tasks := hgrows }

/-- A task that is fit to be shared may be added. -/
theorem Sound.share (h : d.Sound P done pending) {task : DagTask} {name : String}
    {tasks : Registry DagTask}
    (hshared : Registry.Shared P DagTask.record d.scope.tasks task name tasks)
    (hfits : Fits d.templates.entries task)
    (hdeclared : ∀ reference ∈ task.references, d.scope.Declares reference) :
    Sound P { d with scope := { d.scope with tasks } } done pending where
  templates := h.templates
  tasks := hshared.sound
  fits := by
    intro entry hentry
    -- a task that is shared is there already, and a new one is as it has to be
    rcases hshared.entries entry hentry with hold | rfl
    · exact h.fits entry hold
    · exact hfits
  reserved := by
    intro id n hn
    obtain ⟨hused, hkept⟩ := h.reserved id n hn
    exact ⟨hshared.grows.used n hused, hshared.grows.not_kept hused hkept⟩
  distinct := h.distinct
  defined := by
    intro n hn
    obtain ⟨entry, hentry, rfl⟩ := List.mem_map.mp hn
    rcases hshared.entries entry hentry with hold | rfl
    · rcases h.defined _ (List.mem_map_of_mem (f := (·.1)) hold) with hkept | hdone
      · exact .inl (hshared.keptMono _ hkept)
      · exact .inr hdone
    · exact .inl hshared.kept
  declaredPending := h.declaredPending
  declared := by
    intro entry hentry
    rcases hshared.entries entry hentry with hold | rfl
    · exact h.declared entry hold
    · exact hdeclared
  parametersUsed := fun input hinput =>
    (h.parametersUsed input hinput).mono (fun _ hr => hr) (hshared.grows.mem h.tasks.nodup)
  artifactsUsed := fun input hinput =>
    (h.artifactsUsed input hinput).mono (fun _ hr => hr) (hshared.grows.mem h.tasks.nodup)

end Draft
end PipelineCompiler.Argo
