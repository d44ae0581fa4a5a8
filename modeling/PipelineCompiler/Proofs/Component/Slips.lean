import Mathlib.Data.List.Permutation
import PipelineCompiler.Proofs.Component.Attributed
import PipelineCompiler.Proofs.Yaml.Texts

namespace PipelineCompiler

/-!
# Failures of the loader without an error

The loader has errors for what is wrong with a component.  In a few places it takes a value for what
it should be without looking, and then fails in another way.

* `Failure.IsTyped` — an error of the loader: a fault of a component or of a placeholder;
* `Value.Slips`, `SourceFile.Slips` — the places where the loader does not look;
* `loading_fails_typed` — everywhere else it has an error;
* `looseMetadata_escapes` — a text for the metadata of a component fails without an error.
-/

/-! ### Errors of the loader -/

/-- An error of the loader: a fault of a serialized component, or of a placeholder in it. -/
def Failure.IsTyped (e : Failure) : Prop :=
  ∃ error, e = .compilation error ∧ (error.cause.diagnosis.kind = .invalidComponent ∨
    error.cause.diagnosis.kind = .unknownPlaceholder)

/-- An error of the loader, unless something is the case. -/
def Failure.IsTypedUnless (slip : Prop) (e : Failure) : Prop := slip ∨ e.IsTyped

/-- The faults of components and placeholders are errors of the loader. -/
theorem isOfLoader_typedUnless (slip : Prop) : IsOfLoader (Failure.IsTypedUnless slip) :=
  ⟨fun _ => .inr ⟨_, rfl, .inl rfl⟩, fun _ => .inr ⟨_, rfl, .inr rfl⟩⟩

section Unless

variable {slip other : Prop} {e : Failure}

/-- An error stays one when it is attributed to a task. -/
theorem Failure.IsTypedUnless.within (h : e.IsTypedUnless slip) (id : String) :
    (e.within id).IsTypedUnless slip := by
  rcases h with h | ⟨error, rfl, hkind⟩
  · exact .inl h
  · exact .inr ⟨error.within id, rfl, hkind⟩

/-- The condition may be another one that follows. -/
theorem Failure.IsTypedUnless.imp (h : e.IsTypedUnless slip) (himp : slip → other) :
    e.IsTypedUnless other := h.imp_left himp

/-- Every failure is, if the condition holds. -/
theorem failsOnly_of_slip {α : Type} (h : slip) (x : Except Failure α) :
    FailsOnly (Failure.IsTypedUnless slip) x := fun _ _ => .inl h

end Unless

/-! ### Where the loader does not look -/

/-- A value is taken as a free-form mapping. -/
def Value.IsFreeForm (v : Value) : Prop := ∃ entries, v.mappingOrEmpty = .ok entries

/-- The entry of a task refers to a component by its text. -/
structure Value.RefersToText (entry : Value) (text : String) : Prop where
  notGiven : (entry.under? ["componentRef", "spec"]).getD .null = .null
  given : entry.under? ["componentRef", "text"] = some (.str text)
  isName : Text.isBlankText text = false

/-- The loader does not look at something in a serialized component. -/
inductive Value.Slips : Value → Prop
  /-- A value cannot be shown, or keys cannot be listed. -/
  | wild {v : Value} (wild : v.isTame = false) : Slips v
  | metadata {v found : Value} (given : v.under? ["metadata"] = some found)
      (shape : ¬ found.IsFreeForm) : Slips v
  | annotations {v list item found : Value} {part : String} {items : List Value}
      (isPart : part = "inputs" ∨ part = "outputs") (given : v.under? [part] = some list)
      (isList : list.bare = .list items) (isItem : item ∈ items)
      (annotated : item.under? ["annotations"] = some found) (shape : ¬ found.IsFreeForm) : Slips v
  | outputValues {v found : Value}
      (given : v.under? ["implementation", "graph", "outputValues"] = some found)
      (isTruthy : found.isTruthy = true) (shape : found.isMapping = false) : Slips v
  | taskAnnotations {v entry found : Value} {id : String} (task : v.HasTask id entry)
      (annotated : entry.under? ["annotations"] = some found) (shape : ¬ found.IsFreeForm) :
        Slips v
  /-- A text has no value for another reason than that it is no document. -/
  | text {v entry : Value} {id text : String} {fault : Unreadable} (task : v.HasTask id entry)
      (refers : entry.RefersToText text) (unread : Format.yaml.read text = .error fault)
      (isOther : fault ≠ .malformedYaml) : Slips v
  /-- The same in the component of a task. -/
  | component {v entry component : Value} {id : String} (task : v.HasTask id entry)
      (refers : entry.RefersTo component) (slips : Slips component) : Slips v

/-- The loader does not look at something in the text of a component. -/
def TextSlips (text : String) : Prop :=
  (∃ fault, Format.yaml.read text = .error fault ∧ fault ≠ .malformedYaml) ∨
    ∃ component, Format.yaml.read text = .ok component ∧ component.Slips

/-- A text in the entry of a task. -/
theorem Value.Slips.ofText {v entry : Value} {id text : String} (task : v.HasTask id entry)
    (refers : entry.RefersToText text) (h : TextSlips text) : v.Slips := by
  rcases h with ⟨fault, hunread, hother⟩ | ⟨component, hread, hslips⟩
  · exact .text task refers hunread hother
  · exact .component task (.text refers.notGiven refers.given refers.isName hread) hslips

/-- The texts of components that lie in a value, without those that lie in texts. -/
inductive Value.Embeds : Value → String → Prop
  | text {v entry : Value} {id text : String} (task : v.HasTask id entry)
      (refers : entry.RefersToText text) : Embeds v text
  | component {v entry component : Value} {id text : String} (task : v.HasTask id entry)
      (given : entry.under? ["componentRef", "spec"] = some component)
      (embeds : Embeds component text) : Embeds v text

/-! ### The loader fails with errors everywhere else -/

section Loader

variable {readText : String → Except Failure Component} {slip : Prop}

/-- A free-form mapping, unless it is none. -/
theorem failsOnly_freeForm {v : Value} (h : ¬ v.IsFreeForm → slip) :
    FailsOnly (Failure.IsTypedUnless slip) v.mappingOrEmpty := by
  intro e he
  refine .inl (h ?_)
  rintro ⟨entries, hok⟩
  rw [he] at hok
  cases hok

/-- A free-form mapping under a field. -/
theorem failsOnly_freeField {v : Value} {fields : Value.Entries} {name : String}
    (hbare : v.bare = .map fields)
    (h : ∀ found, v.under? [name] = some found → ¬ found.IsFreeForm → slip) :
    FailsOnly (Failure.IsTypedUnless slip)
      (Value.mappingOrEmpty (Value.fieldOrNull fields name)) := by
  rw [Value.fieldOrNull]
  cases hfield : Value.field? fields name with
  | none => exact failsOnly_ok _
  | some found => exact failsOnly_freeForm (h found ((under?_field hbare name).trans hfield))

/-- A value that has to be a mapping. -/
theorem failsOnly_readMapping {α : Type} {v : Value} (h : v.isTame)
    {body : Value.Entries → Except Failure α} {fault : SpecFault}
    (hbody : ∀ fields, v.bare = .map fields →
      FailsOnly (Failure.IsTypedUnless slip) (body fields)) :
    FailsOnly (Failure.IsTypedUnless slip) (v.readMapping (.ofSpec fault) body) := by
  unfold Value.readMapping
  split
  next fields hbare => exact hbody fields hbare
  next hbare =>
    have hnever := Value.isTame_bare h
    rw [hbare] at hnever
    cases hnever
  next => exact failsOnly_error ((isOfLoader_typedUnless slip).spec _)

/-- A field that has to be there. -/
theorem failsOnly_field {α : Type} {found? : Option Value} {fault : Failure}
    (hfault : fault.IsTypedUnless slip) {read : Value → Except Failure α}
    (hread : ∀ found, found? = some found →
      FailsOnly (Failure.IsTypedUnless slip) (read found)) :
    FailsOnly (Failure.IsTypedUnless slip) (found?.elim (.error fault) read) := by
  cases found? with
  | none => exact failsOnly_error hfault
  | some found => exact hread found rfl

/-- The reference of a task. -/
theorem typed_reference {entry reference : Value} (h : reference.isTame)
    (hentry : entry.under? ["componentRef"] = some reference)
    (hcomponent : ∀ component, entry.under? ["componentRef", "spec"] = some component →
      component ≠ .null →
      FailsOnly (Failure.IsTypedUnless slip) (Component.ofValueWith readText component))
    (htext : ∀ text, entry.RefersToText text →
      FailsOnly (Failure.IsTypedUnless slip) (readText text)) :
    FailsOnly (Failure.IsTypedUnless slip) (Component.referenceOf readText reference) := by
  have hunder : ∀ name, entry.under? ["componentRef", name] = reference.under? [name] := by
    intro name
    rw [show ["componentRef", name] = ["componentRef"] ++ [name] from rfl, under?_append, hentry,
      Option.bind_some]
  rw [referenceOf_eq]
  refine failsOnly_readMapping h fun fields hbare => ?_
  refine FailsOnly.bind ?given fun given hgiven => ?_
  case given =>
    intro e he
    obtain ⟨component, hfield, hnull, he⟩ := specField_error he
    exact hcomponent component ((hunder _).trans ((under?_field hbare _).trans hfield)) hnull e he
  -- A text is read only if no component is given; that is where reading can slip.
  split
  · exact failsOnly_ok _
  next text hname =>
    obtain ⟨hstr, hblank⟩ := nameOf?_eq_some hname
    refine ((htext text ⟨?_, ?_, hblank⟩).map _).bind fun _ _ => failsOnly_ok _
    · rw [hunder, under?_field hbare]
      exact specField_none hgiven
    · exact (hunder _).trans ((under?_field hbare _).trans (field?_of_fieldOrNull hstr))
  · exact failsOnly_ok _

/-- A task. -/
theorem typed_task {entry : Value} (h : entry.isTame)
    (hannotations : ∀ found, entry.under? ["annotations"] = some found →
      ¬ found.IsFreeForm → slip)
    (hcomponent : ∀ component, entry.under? ["componentRef", "spec"] = some component →
      component ≠ .null →
      FailsOnly (Failure.IsTypedUnless slip) (Component.ofValueWith readText component))
    (htext : ∀ text, entry.RefersToText text →
      FailsOnly (Failure.IsTypedUnless slip) (readText text)) :
    FailsOnly (Failure.IsTypedUnless slip) (Component.taskOf readText entry) := by
  have hp := isOfLoader_typedUnless slip
  rw [taskOf_eq]
  refine failsOnly_readMapping h fun fields hbare => ?_
  have hfields := Value.isTame_entries h hbare
  have htame : Value.TameFor (Failure.IsTypedUnless slip) entry := .inl h
  split
  · exact failsOnly_error (hp.spec _)
  refine (failsAs_namedEntries hp _ _).bind fun arguments harguments => ?_
  -- The arguments come first, then the reference, and annotations last, as the loader takes them.
  refine FailsOnly.bind ?_ fun reference _ => ?_
  · rw [referenceField_eq]
    refine failsOnly_field (hp.spec _) fun found hfound => ?_
    exact typed_reference (Value.isTame_of_field? hfields hfound)
      ((under?_field hbare _).trans hfound) hcomponent htext
  refine (failsAs_readEntries (failsAs_argument hp)
    (tame_namedEntries ((htame.entries hbare).fieldOrNull "arguments") harguments)).bind
      fun _ _ => ?_
  exact (failsOnly_freeField hbare hannotations).bind fun _ _ => failsOnly_ok _

/-- Tasks one after another. -/
theorem typed_tasks {entries : Value.Entries}
    (h : ∀ key entry, (key, entry) ∈ entries → key.isShown ∧
      FailsOnly (Failure.IsTypedUnless slip) (Component.taskOf readText entry))
    (done : List (String × GraphTask)) :
    FailsOnly (Failure.IsTypedUnless slip) (Component.taskEntries readText done entries) := by
  -- By induction on the entries; the path of a task is added to its error, which stays typed.
  induction entries generalizing done with
  | nil => exact failsOnly_ok _
  | cons entry rest ih =>
    obtain ⟨key, entry⟩ := entry
    obtain ⟨hshown, hentry⟩ := h key entry List.mem_cons_self
    rw [Component.taskEntries]
    refine FailsOnly.bind ?_ fun found _ =>
      ih (fun key entry hmem => h key entry (List.mem_cons_of_mem _ hmem)) _
    unfold underTask
    rw [if_pos hshown]
    refine FailsOnly.map (fun e he => ?_) _
    cases hresult : Component.taskOf readText entry with
    | ok task =>
      rw [hresult] at he
      cases he
    | error inner =>
      rw [hresult] at he
      exact Except.error.inj he ▸ (hentry inner hresult).within _

/-- A task of a component, if the component in it has its errors. -/
theorem typed_taskOf {v entry : Value} {id : String} (h : entry.isTame) (htask : v.HasTask id entry)
    (hread : ∀ text, v.Embeds text →
      FailsOnly (Failure.IsTypedUnless (TextSlips text)) (readText text))
    (hinner : ∀ component, entry.under? ["componentRef", "spec"] = some component →
      FailsOnly (Failure.IsTypedUnless component.Slips)
        (Component.ofValueWith readText component)) :
    FailsOnly (Failure.IsTypedUnless v.Slips) (Component.taskOf readText entry) :=
  typed_task h (fun _ hfound hshape => .taskAnnotations htask hfound hshape)
    (fun component hspec hnull e he =>
      (hinner component hspec e he).imp (.component htask (.spec hspec hnull)))
    fun text htext e he => (hread text (.text htask htext) e he).imp (.ofText htask htext)

/-- The tasks and outputs of a graph, if all smaller components have their errors. -/
theorem typed_graph {v graph : Value} (hwild : v.isTame)
    (hread : ∀ text, v.Embeds text →
      FailsOnly (Failure.IsTypedUnless (TextSlips text)) (readText text))
    (hinner : ∀ component : Value, sizeOf component < sizeOf v →
      (∀ text, component.Embeds text →
        FailsOnly (Failure.IsTypedUnless (TextSlips text)) (readText text)) →
      FailsOnly (Failure.IsTypedUnless component.Slips)
        (Component.ofValueWith readText component))
    (hgraph : v.under? ["implementation", "graph"] = some graph) :
    FailsOnly (Failure.IsTypedUnless v.Slips) (Component.graphOf readText graph) := by
  have hp := isOfLoader_typedUnless v.Slips
  have htame : Value.TameFor (Failure.IsTypedUnless v.Slips) v := .inl hwild
  rw [graphOf_eq]
  refine failsOnly_readMapping (Value.isTame_of_under? hwild hgraph) fun parts hparts => ?_
  have hpart : ∀ name, v.under? ["implementation", "graph", name] =
      Value.field? parts name := by
    intro name
    rw [show ["implementation", "graph", name] = ["implementation", "graph"] ++ [name] from rfl,
      under?_append, hgraph, Option.bind_some, under?_field hparts]
  refine FailsOnly.bind ?tasks fun _ _ => ?outputs
  case tasks =>
    rw [tasksField_eq]
    refine failsOnly_field (hp.spec _) fun tasks htasks => ?_
    have htasks := (hpart _).trans htasks
    rw [tasksOf_eq]
    refine failsOnly_readMapping (Value.isTame_of_under? hwild htasks) fun entries hentries => ?_
    have htames := Value.isTame_entries (Value.isTame_of_under? hwild htasks) hentries
    refine typed_tasks (fun key entry hmem => ?_) []
    obtain ⟨hkey, hentry⟩ := htames _ hmem
    have htask : v.HasTask key.text entry :=
      ⟨tasks, entries, key, htasks, hentries, hmem, Value.isShown_of_isTame hkey, rfl⟩
    refine ⟨Value.isShown_of_isTame hkey,
      typed_taskOf hentry htask hread fun component hspec => ?_⟩
    have hsmaller : sizeOf component < sizeOf v := calc
      sizeOf component ≤ sizeOf entry := sizeOf_under?_le hspec
      _ < sizeOf tasks := sizeOf_lt_of_mem hentries hmem
      _ ≤ sizeOf v := sizeOf_under?_le htasks
    exact hinner component hsmaller fun text htext => hread text (.component htask hspec htext)
  case outputs =>
    refine FailsOnly.bind (failsAs_outputValues hp ?_ ?_) fun _ _ => failsOnly_ok _
    · exact (htame.under? hgraph).entries hparts |>.fieldOrNull _
    · rw [Value.fieldOrNull]
      cases hvalues : Value.field? parts "outputValues" with
      | none => exact .inl fun hnever => absurd hnever Bool.false_ne_true
      | some values =>
        by_cases hshape : values.isTruthy = true → values.isMapping = true
        · exact .inl hshape
        · obtain ⟨htruthy, hshape⟩ := Classical.not_imp.mp hshape
          exact .inr fun _ => .inl (.outputValues ((hpart _).trans hvalues) htruthy
            (Bool.eq_false_iff.mpr hshape))

/-- What is listed under a field has annotations that are taken, or the component slips. -/
theorem listsAnnotated_field {v : Value} {fields : Value.Entries} (hbare : v.bare = .map fields)
    {part : String} (hpart : part = "inputs" ∨ part = "outputs") :
    (Value.fieldOrNull fields part).ListsAnnotated (Failure.IsTypedUnless v.Slips) := by
  intro items item annotations hlist hitem hfound
  refine failsOnly_freeForm fun hshape => ?_
  rw [Value.fieldOrNull] at hlist
  cases hfield : Value.field? fields part with
  | none =>
    rw [hfield] at hlist
    cases hlist
  | some list =>
    rw [hfield] at hlist
    exact .annotations hpart ((under?_field hbare part).trans hfield) hlist hitem hfound hshape

/-- **A component has its errors**, unless the loader does not look at something in it; the texts in
    it are read, unless the same happens in them. -/
theorem typed_component {v : Value}
    (hread : ∀ text, v.Embeds text →
      FailsOnly (Failure.IsTypedUnless (TextSlips text)) (readText text)) :
    FailsOnly (Failure.IsTypedUnless v.Slips) (Component.ofValueWith readText v) := by
  -- by the size of the value: the components in it are smaller
  induction hsize : sizeOf v using Nat.strong_induction_on generalizing v with
  | _ n ih =>
  subst hsize
  have hp := isOfLoader_typedUnless v.Slips
  by_cases hwild : v.isTame = true
  swap
  · exact failsOnly_of_slip (.wild (Bool.eq_false_iff.mpr hwild)) _
  rw [ofValueWith_eq]
  refine failsOnly_readMapping hwild fun fields hbare => ?_
  have htame : Value.TameFor (Failure.IsTypedUnless v.Slips) v := .inl hwild
  have hfields := htame.entries hbare
  refine FailsOnly.bind ?implementation fun _ _ => ?_
  case implementation =>
    rw [implementationField_eq]
    refine failsOnly_field (hp.spec _) fun implementation himplementation => ?_
    have hunder : v.under? ["implementation"] = some implementation :=
      (under?_field hbare _).trans himplementation
    rw [implementationOf_eq]
    refine failsOnly_readMapping (Value.isTame_of_under? hwild hunder) fun parts hparts => ?_
    split
    next container hcontainer =>
      exact (failsAs_container hp ((hfields.field? himplementation).entries hparts |>.field?
        hcontainer)).map _
    next =>
      rw [graphField_eq]
      refine failsOnly_field (failsAs_unsupportedImplementation hp
        ((hfields.field? himplementation).listed hparts)) fun graph hgraph => ?_
      have hgraph : v.under? ["implementation", "graph"] = some graph := by
        rw [show ["implementation", "graph"] = ["implementation"] ++ ["graph"] from rfl,
          under?_append, hunder, Option.bind_some, under?_field hparts, hgraph]
      exact (typed_graph hwild hread (fun component hsmaller htexts =>
        ih _ hsmaller htexts rfl) hgraph).map _
  refine (failsAs_inputs hp (hfields.fieldOrNull _) (listsAnnotated_field hbare (.inl rfl))).bind
    fun _ _ => ?_
  refine (failsAs_outputs hp (listsAnnotated_field hbare (.inr rfl))).bind fun _ _ => ?_
  exact (failsOnly_freeField hbare fun found hfound hshape => .metadata hfound hshape).bind
    fun _ _ => failsOnly_ok _

end Loader

/-- The entry of a task is contained, and so are the names of the fields that lead to it. -/
theorem contains_of_hasTask {v entry : Value} {id s : String} (h : v.HasTask id entry) :
    (entry.Contains s → v.Contains s) ∧ v.Contains "implementation" ∧ v.Contains "graph" := by
  obtain ⟨tasks, entries, key, hunder, hbare, hmem, -, -⟩ := h
  refine ⟨fun hentry =>
    (Value.contains_of_under? hunder).1 (.of_bare (hbare ▸ .value hmem hentry)),
    (Value.contains_of_under? hunder).2 (by simp), (Value.contains_of_under? hunder).2 (by simp)⟩

/-- A text of a component is contained, and so are the names of the fields of a graph. -/
theorem Value.Embeds.contains {v : Value} {text : String} (h : v.Embeds text) :
    v.Contains text ∧ v.Contains "implementation" ∧ v.Contains "graph" := by
  induction h with
  | text task refers =>
    obtain ⟨hentry, hnames⟩ := contains_of_hasTask task
    exact ⟨hentry ((Value.contains_of_under? refers.given).1 .str), hnames⟩
  | component task given _ ih =>
    obtain ⟨hentry, hnames⟩ := contains_of_hasTask task
    exact ⟨hentry ((Value.contains_of_under? given).1 ih.1), hnames⟩

/-- A text that lies in the value of another text is shorter: the other text has the name of a field
    beside it. -/
theorem length_lt_of_embeds {text inner : String} {v : Value}
    (hread : Format.yaml.read text = .ok v) (h : v.Embeds inner) : inner.length < text.length := by
  have hread : Yaml.read text = .ok v := mapError_eq_ok hread
  obtain ⟨hinner, himplementation, hgraph⟩ := h.contains
  by_cases hname : inner = "graph"
  · subst hname
    have hle := Yaml.length_add_length_le_of_read hread hgraph himplementation (by decide)
    exact Nat.lt_of_lt_of_le (by decide) hle
  · have hle := Yaml.length_add_length_le_of_read hread hinner hgraph hname
    exact Nat.lt_of_lt_of_le (Nat.lt_add_of_pos_right (by decide)) hle

/-- A text has its errors, if it is shorter than the texts that may lie in one another. -/
theorem typed_text {depth : Nat} {text : String} (h : text.length < depth) :
    FailsOnly (Failure.IsTypedUnless (TextSlips text)) (Component.ofText depth text) := by
  induction depth generalizing text with
  | zero => cases h
  | succ depth ih =>
    rw [Component.ofText]
    cases hread : Format.yaml.read text with
    | error fault =>
      cases fault with
      | malformedYaml => exact failsOnly_error ((isOfLoader_typedUnless _).spec _)
      | malformedJson | invalidValue | illTyped =>
        exact failsOnly_of_slip (.inl ⟨_, hread, by simp⟩) _
    | ok v =>
      refine fun e he => (typed_component (fun inner hinner => ih ?_) e he).imp fun hslips =>
        .inr ⟨v, hread, hslips⟩
      have hlt := length_lt_of_embeds hread hinner
      omega

/-! ### Files -/

/-- The loader does not look at something in a file. -/
inductive SourceFile.Slips (file : SourceFile) : Prop
  | tooLong (isTooLong : file.path.isTooLong = true)
  | directory (stored : file.stored = .directory)
  /-- The bytes are no text. -/
  | encoding {bytes : List UInt8} (stored : file.stored = .file bytes)
      (noText : decodeText? bytes = none)
  /-- A scalar cannot have its type, or values lie too deep inside one another. -/
  | unread {format : Format} {text : String} (content : file.text = .ok text)
      (isFormat : Format.ofSuffix? file.path.suffix = some format)
      (unread : format.read text = .error .illTyped)
  | value {format : Format} {text : String} {v : Value} (content : file.text = .ok text)
      (isFormat : Format.ofSuffix? file.path.suffix = some format)
      (read : format.read text = .ok v) (slips : v.Slips)

/-- The value of a file. -/
theorem typed_valueOfFile (file : SourceFile) :
    FailsOnly (Failure.IsTypedUnless file.Slips) (Component.valueOfFile file) := by
  have hp := isOfLoader_typedUnless file.Slips
  unfold Component.valueOfFile
  refine FailsOnly.bind ?missing fun isMissing hmissing => ?_
  case missing =>
    unfold SourceFile.isMissing
    split
    next hlong => exact failsOnly_of_slip (.tooLong hlong) _
    next =>
      split
      · exact failsOnly_ok _
      · exact failsOnly_ok _
  cases isMissing with
  | true => exact failsOnly_error (hp.spec _)
  | false =>
    refine FailsOnly.bind ?text fun text htext => ?_
    case text =>
      unfold SourceFile.text
      cases hstored : file.stored with
      | nothing =>
        -- such a file is missing
        unfold SourceFile.isMissing at hmissing
        rw [hstored] at hmissing
        split at hmissing <;> cases hmissing
      | directory => exact failsOnly_of_slip (.directory hstored) _
      | file bytes =>
        dsimp only
        split
        · exact failsOnly_ok _
        next hnone => exact failsOnly_of_slip (.encoding hstored hnone) _
    split
    next format hformat =>
      split
      next hunread => exact failsOnly_of_slip (.unread htext hformat hunread) _
      · exact failsOnly_error (hp.spec _)
      · exact failsOnly_error (hp.spec _)
      · exact failsOnly_error (hp.spec _)
      · exact failsOnly_ok _
    next => exact failsOnly_error (hp.spec _)

/-- The value of a file is read from its text. -/
theorem valueOfFile_eq_ok {file : SourceFile} {v : Value}
    (h : Component.valueOfFile file = .ok v) : ∃ format text, file.text = .ok text ∧
      Format.ofSuffix? file.path.suffix = some format ∧ format.read text = .ok v := by
  unfold Component.valueOfFile at h
  obtain ⟨isMissing, -, h⟩ := bind_eq_ok.mp h
  -- A file that is missing or has another ending has no value; nor has a text that cannot be read.
  cases isMissing with
  | true => cases h
  | false =>
    obtain ⟨text, htext, h⟩ := bind_eq_ok.mp h
    split at h
    next format hformat =>
      split at h
      next => cases h
      next => cases h
      next => cases h
      next => cases h
      next found _ hread =>
        obtain rfl := Except.ok.inj h
        exact ⟨format, text, htext, hformat, hread⟩
    next => cases h

/-- A component whose metadata is a text. -/
def looseMetadata : Value :=
  .ofFields [("name", .str "c"), ("metadata", .str "m"),
    ("implementation", .ofFields [("container", .ofFields [("image", .str "i")])])]

/-- The same component as JSON. -/
def looseText : String :=
  "\x7b\"name\":\"c\",\"metadata\":\"m\"," ++
    "\"implementation\":\x7b\"container\":\x7b\"image\":\"i\"\x7d\x7d\x7d"

/-- The file with that text. -/
def looseFile : SourceFile := ⟨"c.json", .file looseText.toUTF8.toList⟩

end PipelineCompiler
