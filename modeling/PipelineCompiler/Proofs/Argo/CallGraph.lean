import Mathlib.Logic.Relation
import PipelineCompiler.Proofs.Argo.Closure
import PipelineCompiler.Proofs.Argo.Steps

namespace PipelineCompiler.Argo

/-!
# Which templates call which

A template calls the templates of its tasks.

* `Calls`, `Covers` — calls, and names from which all templates but some are reached;
* `blueprint_covers` — the templates that are made for a component are reached from its tasks;
* `Workflow.Rooted` — calls lead to earlier templates, the last template is the entry point, and
  all templates are reached from there;
* `compile_rooted` — every workflow that is made is rooted.

That the entry point is a new template rests on the order of templates: an earlier template that is
equal to it would be reached from its own tasks, and those lie before it.
-/

open Relation

variable {P : String → Prop} {s : Settings}

/-! ### Calls -/

/-- The names of the templates that a template calls. -/
def Template.callees (t : Template) : List String := t.tasks.map fun entry => entry.2.template

/-- A template has a task whose template is another one. -/
def Calls (templates : Keyed Template) (caller callee : String) : Prop :=
  ∃ t, Keyed.find? templates caller = some t ∧ callee ∈ t.callees

/-- Every template is one of those that there were, or is reached from a caller. -/
def Covers (old : List String) (templates : Keyed Template) (callers : List String) : Prop :=
  ∀ name ∈ Keyed.keys templates,
    name ∈ old ∨ ∃ caller ∈ callers, ReflTransGen (Calls templates) caller name

/-- Calls are not taken back. -/
theorem Calls.mono {templates templates' : Keyed Template}
    (hw : Keyed.Within templates templates') {caller callee : String}
    (h : ReflTransGen (Calls templates) caller callee) :
    ReflTransGen (Calls templates') caller callee := by
  have hcalls : Calls templates ≤ Calls templates' :=
    fun _ _ ⟨t, ht, hmem⟩ => ⟨t, hw _ _ ht, hmem⟩
  exact ReflTransGen.mono hcalls _ _ h

/-- The callees of a template are those of its outline. -/
theorem callees_eq_outline (t : Template) :
    t.callees = t.outline.tasks.map fun entry => entry.2.template := by
  cases t with
  | container | conversion => rfl
  | dag parameters artifacts outputs tasks =>
    simp [Template.callees, Template.tasks, Template.outline, Outline.tasks, DagTask.outline]

/-- The callees of shared templates are the same. -/
theorem callees_of_sameRecord {t u : Template} (h : SameRecord Template.record t u) :
    t.callees = u.callees := by
  rw [callees_eq_outline, callees_eq_outline, outline_of_sameRecord h]

/-! ### Calls lead to earlier templates -/

/-- A closed template calls templates that there are. -/
theorem Template.Closed.callees {templates : Keyed Template} {t : Template}
    (h : t.Closed templates) : ∀ name ∈ t.callees, name ∈ Keyed.keys templates := by
  intro name hname
  obtain ⟨entry, hentry, rfl⟩ := List.mem_map.mp hname
  cases t with
  | container | conversion => exact absurd hentry List.not_mem_nil
  | dag parameters artifacts outputs tasks =>
    obtain ⟨u, hu, -⟩ := DagClosed.fits h entry hentry
    exact Keyed.mem_keys_of_find? hu

/-- What is reached from a template of the first ones is one of these, if calls lead to earlier
    templates. -/
theorem reached_mem {templates earlier later : Keyed Template}
    (h : Chained (fun before entry => ∀ name ∈ entry.2.callees,
      name ∈ Keyed.keys before) templates)
    (heq : templates = earlier ++ later) {caller name : String}
    (hreach : ReflTransGen (Calls templates) caller name)
    (hcaller : caller ∈ Keyed.keys earlier) :
    name ∈ Keyed.keys earlier := by
  -- By induction on the calls: a template calls earlier ones only, so no call leaves the first
  -- ones.
  induction hreach with
  | refl => exact hcaller
  | @tail mid callee _ hcall ih =>
    obtain ⟨t, ht, hmem⟩ := hcall
    obtain ⟨found, hfound⟩ := Keyed.exists_find?_of_mem_keys ih
    rw [heq, Keyed.find?_append, hfound, Option.some_or] at ht
    obtain rfl := Option.some.inj ht
    obtain ⟨before, after, hsplit⟩ := List.append_of_mem (Keyed.mem_of_find? hfound)
    have hbefore := h before (mid, found) (after ++ later) (by rw [heq, hsplit]; simp) callee hmem
    rw [hsplit, Keyed.keys_append]
    exact List.mem_append_left _ hbefore

/-- A template that all others are reached from is new: an equal one would lie before itself. -/
theorem not_sameRecord_of_covers {templates : Registry Template} (h : TemplatesSound P templates)
    {t : Template} (hcovers : Covers [] templates.entries t.callees) :
    ∀ entry ∈ templates.entries, ¬ SameRecord Template.record entry.2 t := by
  intro entry hentry hsame
  obtain ⟨earlier, later, heq⟩ := List.append_of_mem hentry
  have hchained : Chained (fun before entry => ∀ name ∈ entry.2.callees,
    name ∈ Keyed.keys before)
      templates.entries := h.chained.imp fun _ _ hclosed => hclosed.callees
  have hnodup := h.sound.nodup
  rw [heq, Keyed.keys_append, List.nodup_append] at hnodup
  -- the equal template is reached from its own callees, which come before it
  rcases hcovers entry.1 (List.mem_map_of_mem (f := (·.1)) hentry)
    with hold | ⟨caller, hcaller, hreach⟩
  · exact List.not_mem_nil hold
  · rw [← callees_of_sameRecord hsame] at hcaller
    have hbefore := hchained earlier entry later heq caller hcaller
    have hself := reached_mem hchained heq hreach hbefore
    exact hnodup.2.2 entry.1 hself entry.1 List.mem_cons_self rfl

/-! ### Which templates are reached -/

/-- More callers reach more. -/
theorem Covers.mono {old callers callers' : List String} {templates : Keyed Template}
    (h : Covers old templates callers) (hsub : ∀ name ∈ callers, name ∈ callers') :
    Covers old templates callers' := by
  intro name hname
  rcases h name hname with hold | ⟨caller, hcaller, hreach⟩
  · exact .inl hold
  · exact .inr ⟨caller, hsub caller hcaller, hreach⟩

/-- **A template that is added or shared** reaches what is reached from its callees. -/
theorem Covers.share {old callers : List String} {templates templates' : Registry Template}
    {t : Template} {name : String} (h : Covers old templates.entries (t.callees ++ callers))
    (hshared : Registry.Shared P Template.record templates t name templates') :
    Covers old templates'.entries (name :: callers) := by
  obtain ⟨found, hfind, hsame⟩ := hshared.found
  intro n hn
  obtain ⟨entry, hentry, rfl⟩ := List.mem_map.mp hn
  rcases hshared.entries entry hentry with hentry | rfl
  · rcases h entry.1 (List.mem_map_of_mem (f := (·.1)) hentry)
      with hold | ⟨caller, hcaller, hreach⟩
    · exact .inl hold
    · have hreach := Calls.mono hshared.grows.within hreach
      rcases List.mem_append.mp hcaller with hcaller | hcaller
      · rw [← callees_of_sameRecord hsame] at hcaller
        exact .inr ⟨name, List.mem_cons_self, .head ⟨found, hfind, hcaller⟩ hreach⟩
      · exact .inr ⟨caller, List.mem_cons_of_mem _ hcaller, hreach⟩
  · exact .inr ⟨name, List.mem_cons_self, .refl⟩

/-- The templates of the tasks of the graph at hand. -/
def Draft.callees (d : Draft) : List String :=
  d.scope.tasks.entries.map fun entry => entry.2.template

variable {d d' : Draft} {old pending : List String}

/-- The templates of tasks stay when a task is added or shared, whose template is then among
    them. -/
theorem mem_callees_of_shared {tasks tasks' : Registry DagTask} {task : DagTask} {name : String}
    (h : Registry.Shared P DagTask.record tasks task name tasks') :
    (∀ entry ∈ tasks.entries, entry ∈ tasks'.entries) ∧
      ∃ entry ∈ tasks'.entries, entry.2.template = task.template := by
  constructor
  · intro entry hentry
    rcases h.appended with heq | heq
    · exact heq ▸ hentry
    · exact heq ▸ List.mem_append_left _ hentry
  · obtain ⟨found, hfind, hsame⟩ := h.found
    exact ⟨_, Keyed.mem_of_find? hfind,
      congrArg TaskOutline.template (taskOutline_of_sameRecord hsame)⟩

/-- A conversion calls its template. -/
theorem Draft.Converted.covers {source : Reference} {name : String}
    (h : d.Converted P s source name d')
    (hcovers : Covers old d.templates.entries (d.callees ++ pending)) :
    Covers old d'.templates.entries (d'.callees ++ pending) := by
  obtain ⟨t, template, templates, tasks, ht, htemplate, htask, rfl⟩ := h.exists_shared
  have hnone : t.callees = [] := by
    rw [callees_eq_outline, conversionTemplate_outline ht]
    rfl
  obtain ⟨hkept, entry, hentry, hname⟩ := mem_callees_of_shared htask
  have hstart : Covers old d.templates.entries (t.callees ++ (d.callees ++ pending)) := by
    rwa [hnone, List.nil_append]
  refine (hstart.share htemplate).mono fun n hn => ?_
  -- The template of the conversion is called by its task, so it is pending no more.
  rcases List.mem_cons.mp hn with rfl | hn
  · exact List.mem_append_left _ (List.mem_map.mpr ⟨entry, hentry, hname⟩)
  · rcases List.mem_append.mp hn with hn | hn
    · obtain ⟨other, hother, rfl⟩ := List.mem_map.mp hn
      exact List.mem_append_left _ (List.mem_map_of_mem (hkept other hother))
    · exact List.mem_append_right _ hn

/-- A binding keeps templates reached. -/
theorem Draft.BindsValue.covers {argument : Argument} {reference : Reference}
    (h : d.BindsValue P s argument reference d')
    (hcovers : Covers old d.templates.entries (d.callees ++ pending)) :
    Covers old d'.templates.entries (d'.callees ++ pending) := by
  cases h with
  | constant | input => exact hcovers
  | convertedInput _ _ converted => exact converted.covers hcovers
  | convertedOutput _ converted => exact converted.covers hcovers

/-- A binding of a file keeps templates reached. -/
theorem Draft.BindsFile.covers {argument : Argument} {reference : Reference}
    (h : d.BindsFile argument reference d')
    (hcovers : Covers old d.templates.entries (d.callees ++ pending)) :
    Covers old d'.templates.entries (d'.callees ++ pending) := by
  cases h with
  | input | output => exact hcovers

/-- The bindings of a task keep templates reached. -/
theorem Draft.BindsAll.covers {binds : Draft → Argument → Reference → Draft → Prop}
    {b : Binder}
    {names : List String} {bindings : List (String × Reference)}
    (h : Draft.BindsAll binds b d names bindings d')
    (hbinds : ∀ d argument reference d', binds d argument reference d' →
      Covers old d.templates.entries (d.callees ++ pending) →
        Covers old d'.templates.entries (d'.callees ++ pending))
    (hcovers : Covers old d.templates.entries (d.callees ++ pending)) :
    Covers old d'.templates.entries (d'.callees ++ pending) := by
  induction h with
  | nil => exact hcovers
  | cons _ first _ _ ih => exact ih (hbinds _ _ _ _ first hcovers)

/-- A task calls its template. -/
theorem Draft.AddsTask.covers {id : String} {b : Binder} {blueprint : Blueprint}
    (h : d.AddsTask P s id b blueprint d')
    (hcovers : Covers old d.templates.entries (blueprint.template.callees ++ d.callees)) :
    Covers old d'.templates.entries d'.callees := by
  cases h with
  | @intro template name templates d₁ d₂ parameters artifacts shared values files named isNew =>
    have hstart : Covers old templates.entries (d.callees ++ [template]) :=
      (hcovers.share shared).mono fun n hn => by simpa [or_comm] using hn
    have hvalues := values.covers (fun _ _ _ _ hbinds => hbinds.covers) hstart
    have hfiles := files.covers (fun _ _ _ _ hbinds => hbinds.covers) hvalues
    have hcallees : d₂.callees ++ [template] =
      Draft.callees { d₂ with scope := { d₂.scope with
        tasks := d₂.scope.tasks.define name (.step template parameters artifacts) } } := by
      unfold Draft.callees
      rw [Registry.define_entries isNew, List.map_append]
      rfl
    rwa [hcallees] at hfiles

/-- The templates that were made for a component are reached from the tasks of its blueprint. -/
def Covered (templates : Registry Template) (blueprint : Blueprint)
    (templates' : Registry Template) : Prop :=
  Covers (Keyed.keys templates.entries) templates'.entries blueprint.template.callees

/-- **The tasks of a graph** keep templates reached, if each component does. -/
theorem Draft.Runs.covers {tasks : List (String × GraphTask)} {order : List String}
    (h : Draft.Runs P s tasks order d d')
    (hinner : ∀ entry ∈ tasks, ∀ inner, entry.2.reference.spec = some inner →
      ∀ arguments kinds path templates blueprint templates', TemplatesSound P templates →
        (componentBlueprint s arguments kinds path templates inner).Yields P
          (blueprint, templates') → Covered templates blueprint templates')
    (hcovers : Covers old d.templates.entries d.callees) :
    Covers old d'.templates.entries d'.callees := by
  induction h with
  | nil => exact hcovers
  | @cons d d₁ d₂ id rest task component kinds blueprint templates found spec
      _ before made sound
      added _ ih =>
    refine ih (added.covers fun n hn => ?_)
    -- what is new is reached from the blueprint, and what was there from the earlier tasks
    rcases hinner _ (Keyed.mem_of_find? found) component spec _ _ _ _ _ _ before made n hn with
      hold | ⟨caller, hcaller, hreach⟩
    · rcases hcovers n hold with hold | ⟨caller, hcaller, hreach⟩
      · exact .inl hold
      · exact .inr ⟨caller, List.mem_append_right _ hcaller,
          Calls.mono sound.grows.within hreach⟩
    · exact .inr ⟨caller, List.mem_append_left _ hcaller, hreach⟩

/-- **The templates that are made for a component are reached from its tasks**, at any depth. -/
theorem blueprint_covers (hsep : Separates P) (c : Component) :
    ∀ arguments kinds path templates blueprint templates', TemplatesSound P templates →
      (componentBlueprint s arguments kinds path templates c).Yields P (blueprint, templates') →
        Covered templates blueprint templates' := by
  induction c using Component.nesting with
  | container c container himpl =>
    intro arguments kinds path templates blueprint templates' ht hyields
    obtain ⟨rfl, -⟩ := container_runs himpl hyields
    exact fun name hname => .inl hname
  | graph c g himpl ih =>
    intro arguments kinds path templates blueprint templates' ht hyields
    obtain ⟨order, scope, d, -, hscope, hruns, -, rfl, hmade⟩ :=
      graph_runs hsep himpl ht hyields
    obtain ⟨outputs, -, hmade⟩ := bind_eq_ok.mp hmade
    obtain rfl := pure_eq_ok.mp hmade
    exact hruns.covers ih fun name hname => .inl hname

/-! ### Whole workflows -/

/-- The templates of a workflow in their order.  Tasks call templates that were made before; the
    entry point is the last template, whose record no other template has; and every template is
    reached from there. -/
structure Workflow.Rooted (w : Workflow) : Prop where
  earlier : Chained (fun before entry => ∀ name ∈ entry.2.callees, name ∈ Keyed.keys before)
    w.templates
  last : ∃ others root, w.templates = others ++ [(w.entrypoint, root)] ∧
    w.entrypoint ∉ Keyed.keys others ∧ ∀ entry ∈ others,
      ¬ SameRecord Template.record entry.2 root
  reached : ∀ name ∈ Keyed.keys w.templates, ReflTransGen (Calls w.templates) w.entrypoint name

/-- **Workflows are rooted.**  Whatever is compiled, no template calls a later one or itself, none
    is left over, and the last one is the entry point, provided that different texts whose digests
    were taken have different digests. -/
theorem compile_rooted (context : Context) (c : Component) (arguments : Keyed Value) (w : Workflow)
    (hw : (compile context c arguments).result = .ok w)
    (hsep : (compile context c arguments).SeparatesDigests) : w.Rooted := by
  obtain ⟨s, blueprint, templates, templates', -, hblueprint, hsound, hshared, hentries, -⟩ :=
    compile_shared hsep (Recorded.yields_of_result hw)
  have hcovers := blueprint_covers hsep c _ _ _ _ _ _ (templatesSound_empty s) hblueprint
  have hnew := not_sameRecord_of_covers hsound.sound hcovers
  obtain ⟨htemplates, hgrows, -⟩ := hsound.sound.share hsound.closed hshared
  obtain ⟨found, hfind, hsame⟩ := hshared.found
  -- the template of the entry point is not shared, so that it was added at the end
  have hadded : templates'.entries = templates.entries ++ [(w.entrypoint, blueprint.template)] := by
    refine hshared.appended.resolve_left fun heq => ?_
    rw [heq] at hfind
    exact hnew _ (Keyed.mem_of_find? hfind) hsame
  have hnodup := htemplates.sound.nodup
  rw [hadded, Keyed.keys_append, List.nodup_append] at hnodup
  refine ⟨?_, ⟨templates.entries, blueprint.template, ?_, ?_, hnew⟩, ?_⟩
  · rw [← hentries]
    exact htemplates.chained.imp fun _ _ hclosed => hclosed.callees
  · rw [← hentries, hadded]
  · exact fun hmem => hnodup.2.2 _ hmem _ List.mem_cons_self rfl
  · intro name hname
    have hstart : Covers [] templates.entries (blueprint.template.callees ++ []) := by
      rwa [List.append_nil]
    have hall : Covers [] templates'.entries [w.entrypoint] := hstart.share hshared
    rw [← hentries] at hname ⊢
    rcases hall name hname with hold | ⟨caller, hcaller, hreach⟩
    · exact absurd hold List.not_mem_nil
    · rwa [List.mem_singleton.mp hcaller] at hreach

/-- The workflow of the example is rooted. -/
theorem samplePipeline_rooted :
    ∃ w, (compile sampleContext samplePipeline []).result = .ok w ∧ w.Rooted := by
  obtain ⟨w, hw⟩ := samplePipeline_result
  exact ⟨w, hw, compile_rooted sampleContext samplePipeline [] w hw
    (separatesDigests_of_nodup samplePipeline_compiles.2)⟩

end PipelineCompiler.Argo
