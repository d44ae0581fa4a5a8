import PipelineCompiler.Proofs.Component.Serialized

namespace PipelineCompiler

/-!
# What is read is proper

* `isNamed_placeholder`, `isNamed_argument` — placeholders and arguments that are read have names
  in all the places where they need them;
* `named_inputs`, `named_outputs`, `isProper_container`, `isProper_task`, `isProper_graph` — so do
  interfaces, containers, tasks and graphs;
* `isProper_of_read` — so does every component that is read.
-/

/-! ### Command lines -/

/-- A name under a kind is one. -/
theorem isName_nameUnder {kind noun name : String} {v : Value}
    (h : nameUnder kind noun v = .ok name) : NotBlank name := by
  unfold nameUnder at h
  split at h
  next found hfound =>
    obtain rfl := Except.ok.inj h
    exact (nameOf?_eq_some hfound).2
  next => cases h

/-- A condition that is read is named. -/
theorem isNamed_condition {v : Value} {condition : Condition}
    (h : Condition.ofValue v = .ok condition) : condition.IsNamed := by
  unfold Condition.ofValue at h
  -- A truth value, or a mapping with one of two keys.
  split at h
  · obtain rfl := Except.ok.inj h
    exact trivial
  · obtain rfl := Except.ok.inj h
    exact trivial
  · split at h
    · obtain ⟨name, hname, rfl⟩ := map_eq_ok.mp h
      exact isName_nameUnder hname
    · split at h
      · obtain ⟨name, hname, rfl⟩ := map_eq_ok.mp h
        exact isName_nameUnder hname
      · cases h
  · cases h
  · cases h

/-- What is no mapping is read as a literal. -/
theorem isNamed_ofScalar {v : Value} {p : Placeholder} (h : Placeholder.ofScalar v = .ok p) :
    p.IsNamed := by
  rw [Placeholder.ofScalar] at h
  obtain ⟨text, -, h⟩ := bind_eq_ok.mp h
  cases text with
  | some text =>
    obtain rfl := pure_eq_ok.mp h
    exact trivial
  | none => exact nomatch h

mutual

/-- **A placeholder that is read is named.** -/
theorem isNamed_placeholder : ∀ (v : Value) (p : Placeholder), Placeholder.parse v = .ok p →
    p.IsNamed
  | .map [(kind, value)] => fun p h => by
    rw [Placeholder.parse] at h
    -- The kinds of placeholders in the order of the reader: names for the first three, and lists
    -- and branches of others.
    split at h
    · obtain ⟨name, hname, rfl⟩ := map_eq_ok.mp h
      exact isName_nameUnder hname
    split at h
    · obtain ⟨name, hname, rfl⟩ := map_eq_ok.mp h
      exact isName_nameUnder hname
    split at h
    · obtain ⟨name, hname, rfl⟩ := map_eq_ok.mp h
      exact isName_nameUnder hname
    split at h
    · obtain ⟨items, hitems, rfl⟩ := map_eq_ok.mp h
      exact areNamed_listOf "concat" value items hitems
    split at h
    · exact isNamed_branchOf value p h
    · cases h
  | .map [] => fun p h => by
    rw [Placeholder.parse] at h
    · cases h
    · exact fun _ _ he => nomatch he
  | .map (_ :: _ :: _) => fun p h => by
    rw [Placeholder.parse] at h
    · cases h
    · exact fun _ _ he => nomatch he
  | .placed place v => fun p h => by
    rw [Placeholder.parse] at h
    split at h
    · exact isNamed_placeholder v p h
    · exact isNamed_ofScalar h
  | .endless => fun _ h => nomatch h
  | .null | .bool _ | .int _ | .float _ | .str _ | .bytes _ | .date _ | .timestamp _ | .list _
  | .tuple _ | .set _ => fun _ => isNamed_ofScalar

/-- So are the placeholders of a list. -/
theorem areNamed_listOf (what : String) : ∀ (v : Value) (items : List Placeholder),
    Placeholder.listOf what v = .ok items → Placeholder.AreNamed items
  | .list values, items, h => by
    rw [Placeholder.listOf] at h
    exact areNamed_ofValues values items h
  | .placed _ v, items, h => by
    rw [Placeholder.listOf] at h
    exact areNamed_listOf what v items h
  | .endless, _, h => nomatch h
  | .null, _, h | .bool _, _, h | .int _, _, h | .float _, _, h | .str _, _, h | .bytes _, _, h
  | .date _, _, h | .timestamp _, _, h | .map _, _, h | .tuple _, _, h | .set _, _, h => nomatch h

/-- So are placeholders one after another. -/
theorem areNamed_ofValues : ∀ (values : List Value) (items : List Placeholder),
    Placeholder.ofValues values = .ok items → Placeholder.AreNamed items
  | [], items, h => by
    obtain rfl := Except.ok.inj h
    exact trivial
  | value :: rest, items, h => by
    rw [Placeholder.ofValues] at h
    obtain ⟨item, hitem, h⟩ := bind_eq_ok.mp h
    obtain ⟨others, hothers, h⟩ := bind_eq_ok.mp h
    obtain rfl := pure_eq_ok.mp h
    exact ⟨isNamed_placeholder value item hitem, areNamed_ofValues rest others hothers⟩

/-- So is a condition with its branches. -/
theorem isNamed_branchOf : ∀ (v : Value) (p : Placeholder), Placeholder.branchOf v = .ok p →
    p.IsNamed
  | .map fields, p, h => by
    rw [Placeholder.branchOf] at h
    split at h
    · dsimp only at h
      split at h
      · cases h
      · obtain ⟨condition, hcondition, h⟩ := bind_eq_ok.mp h
        obtain ⟨yes, hyes, h⟩ := bind_eq_ok.mp h
        obtain ⟨no, hno, h⟩ := bind_eq_ok.mp h
        obtain rfl := pure_eq_ok.mp h
        exact ⟨isNamed_condition hcondition, areNamed_yesOf fields yes hyes,
          noIsNamed_noOf fields no hno⟩
    · cases h
  | .placed _ v, p, h => by
    rw [Placeholder.branchOf] at h
    exact isNamed_branchOf v p h
  | .endless, _, h => nomatch h
  | .null, _, h | .bool _, _, h | .int _, _, h | .float _, _, h | .str _, _, h | .bytes _, _, h
  | .date _, _, h | .timestamp _, _, h | .list _, _, h | .tuple _, _, h | .set _, _, h => nomatch h

/-- So is the branch that is taken when the condition holds. -/
theorem areNamed_yesOf : ∀ (fields : List (Value × Value)) (items : List Placeholder),
    Placeholder.yesOf fields = .ok items → Placeholder.AreNamed items
  | [], _, h => nomatch h
  | (key, value) :: rest, items, h => by
    rw [Placeholder.yesOf] at h
    split at h
    · exact areNamed_listOf _ value items h
    · exact areNamed_yesOf rest items h

/-- So is the other branch. -/
theorem noIsNamed_noOf : ∀ (fields : List (Value × Value)) (no : Option (List Placeholder)),
    Placeholder.noOf fields = .ok no → Placeholder.NoIsNamed no
  | [], no, h => by
    obtain rfl := Except.ok.inj h
    exact trivial
  | (key, value) :: rest, no, h => by
    rw [Placeholder.noOf] at h
    split at h
    · split at h
      · obtain rfl := Except.ok.inj h
        exact trivial
      · obtain ⟨items, hitems, rfl⟩ := map_eq_ok.mp h
        exact areNamed_listOf _ value items hitems
    · exact noIsNamed_noOf rest no h

end

/-- So is a command line. -/
theorem noIsNamed_commandLine {what : String} {v : Value} {line : Option (List Placeholder)}
    (h : commandLine what v = .ok line) : Placeholder.NoIsNamed line := by
  unfold commandLine at h
  split at h
  · obtain rfl := Except.ok.inj h
    exact trivial
  · obtain ⟨items, hitems, rfl⟩ := map_eq_ok.mp h
    exact areNamed_listOf _ _ items hitems

/-! ### Arguments -/

/-- A required name is one. -/
theorem isName_requiredName {fields : Value.Entries} {kind field name : String}
    (h : requiredName fields kind field = .ok name) : NotBlank name := by
  unfold requiredName at h
  split at h
  next found hfound =>
    obtain rfl := Except.ok.inj h
    exact (nameOf?_eq_some hfound).2
  next => cases h

/-- **An argument that is read is named.** -/
theorem isNamed_argument {v : Value} {a : Argument} (h : Argument.parse v = .ok a) :
    a.IsNamed := by
  obtain ⟨text, -, h⟩ := bind_eq_ok.mp h
  split at h
  · obtain rfl := pure_eq_ok.mp h
    exact trivial
  split at h
  case isFalse => cases h
  -- The kind of the argument decides which names it needs.
  split at h
  · unfold Argument.ofKind at h
    split at h
    · split at h
      · obtain ⟨input, hinput, h⟩ := bind_eq_ok.mp h
        obtain rfl := pure_eq_ok.mp h
        exact isName_requiredName hinput
      · split at h
        · obtain ⟨task, htask, h⟩ := bind_eq_ok.mp h
          obtain ⟨output, houtput, h⟩ := bind_eq_ok.mp h
          obtain rfl := pure_eq_ok.mp h
          exact ⟨isName_requiredName htask, isName_requiredName houtput⟩
        · cases h
    · cases h
  · cases h
  · cases h

/-- Named entries that are read are what their values are read as, each under its own name. -/
theorem forall_readEntries {α : Type} {Q : α → Prop} {read : Value → Except Failure α}
    (hread : ∀ v a, read v = .ok a → Q a) {entries : Value.Entries} {found : Keyed α}
    (h : readEntries read entries = .ok found) :
    (Keyed.keys found).Nodup ∧ ∀ entry ∈ found, Q entry.2 := by
  refine foldlM_keeps (I := fun done : Keyed α =>
    (Keyed.keys done).Nodup ∧ ∀ entry ∈ done,
      Q entry.2) (fun done entry next hok hdone => ?_) h
    ⟨List.nodup_nil, fun _ hmem => nomatch hmem⟩
  -- What is put is read from the value and stands under a text.
  obtain ⟨name, -, hok⟩ := bind_eq_ok.mp hok
  obtain ⟨a, ha, hok⟩ := bind_eq_ok.mp hok
  obtain rfl := pure_eq_ok.mp hok
  refine ⟨Keyed.nodup_put hdone.1 _ _, fun other hother => ?_⟩
  rcases Keyed.mem_put hother with hother | rfl
  · exact hdone.2 other hother
  · exact hread _ _ ha

/-- The outputs of a graph that are read are named. -/
theorem isNamed_outputValues {v : Value} {outputValues : List (String × TaskOutput)}
    (h : outputValuesOf v = .ok outputValues) : ∀ entry ∈ outputValues, entry.2.IsNamed := by
  unfold outputValuesOf at h
  split at h
  case isFalse =>
    obtain rfl := pure_eq_ok.mp h
    exact fun _ hmem => nomatch hmem
  split at h
  next entries _ =>
    -- Entries are put one after another, and each one that is put is named.
    refine foldlM_keeps (I := fun done : Keyed TaskOutput => ∀ entry ∈ done, entry.2.IsNamed)
      (fun done entry next hok hdone => ?_) h fun _ hmem => nomatch hmem
    obtain ⟨argument, hargument, hok⟩ := bind_eq_ok.mp hok
    obtain ⟨name, -, hok⟩ := bind_eq_ok.mp hok
    cases argument with
    | literal | graphInput => cases hok
    | taskOutput source =>
      obtain rfl := pure_eq_ok.mp hok
      intro other hother
      rcases Keyed.mem_put hother with hother | rfl
      · exact hdone other hother
      · exact isNamed_argument hargument
  next => cases h

/-! ### Interfaces -/

/-- A declared name is one. -/
theorem isName_declaredName {noun place name : String} {seen : List String} {fields : Value.Entries}
    (h : declaredName noun place seen fields = .ok name) : NotBlank name := by
  unfold declaredName at h
  split at h
  next => cases h
  next found hfound =>
    split at h
    next => cases h
    next =>
      obtain rfl := Except.ok.inj h
      exact (nameOf?_eq_some hfound).2

/-- Inputs that are read are named. -/
theorem named_inputs {items : List Value} {seen : List String} {index : Nat}
    {inputs : List InputSpec} (h : InputSpec.ofItems seen index items = .ok inputs) :
    ∀ input ∈ inputs, NotBlank input.name := by
  induction items generalizing seen index inputs with
  | nil =>
    obtain rfl := Except.ok.inj h
    exact fun _ hmem => nomatch hmem
  | cons item rest ih =>
    unfold InputSpec.ofItems at h
    obtain ⟨input, hinput, h⟩ := bind_eq_ok.mp h
    obtain ⟨others, hothers, h⟩ := bind_eq_ok.mp h
    obtain rfl := pure_eq_ok.mp h
    obtain ⟨fields, -, hinput⟩ := bind_eq_ok.mp hinput
    obtain ⟨name, hname, hinput⟩ := bind_eq_ok.mp hinput
    obtain ⟨isOptional, -, hinput⟩ := bind_eq_ok.mp hinput
    obtain ⟨default, -, hinput⟩ := bind_eq_ok.mp hinput
    obtain ⟨annotations, -, hinput⟩ := bind_eq_ok.mp hinput
    obtain rfl := pure_eq_ok.mp hinput
    exact List.forall_mem_cons.mpr ⟨isName_declaredName hname, ih hothers⟩

/-- Outputs that are read are named. -/
theorem named_outputs {items : List Value} {seen : List String} {index : Nat}
    {outputs : List OutputSpec} (h : OutputSpec.ofItems seen index items = .ok outputs) :
    ∀ output ∈ outputs, NotBlank output.name := by
  induction items generalizing seen index outputs with
  | nil =>
    obtain rfl := Except.ok.inj h
    exact fun _ hmem => nomatch hmem
  | cons item rest ih =>
    unfold OutputSpec.ofItems at h
    obtain ⟨output, houtput, h⟩ := bind_eq_ok.mp h
    obtain ⟨others, hothers, h⟩ := bind_eq_ok.mp h
    obtain rfl := pure_eq_ok.mp h
    obtain ⟨fields, -, houtput⟩ := bind_eq_ok.mp houtput
    obtain ⟨name, hname, houtput⟩ := bind_eq_ok.mp houtput
    obtain ⟨annotations, -, houtput⟩ := bind_eq_ok.mp houtput
    obtain rfl := pure_eq_ok.mp houtput
    exact List.forall_mem_cons.mpr ⟨isName_declaredName hname, ih hothers⟩

/-! ### Implementations -/

/-- **A container that is read is proper.** -/
theorem isProper_container {v : Value} {container : Container}
    (h : Container.ofValue v = .ok container) : container.IsProper := by
  unfold Container.ofValue at h
  split at h
  case h_2 => cases h
  split at h
  case h_2 => cases h
  next image himage =>
    obtain ⟨entries, -, h⟩ := bind_eq_ok.mp h
    obtain ⟨command, hcommand, h⟩ := bind_eq_ok.mp h
    obtain ⟨args, hargs, h⟩ := bind_eq_ok.mp h
    obtain ⟨env, henv, h⟩ := bind_eq_ok.mp h
    obtain rfl := pure_eq_ok.mp h
    obtain ⟨hnodup, hnamed⟩ := forall_readEntries isNamed_placeholder henv
    exact ⟨(nameOf?_eq_some himage).2, noIsNamed_commandLine hcommand,
      noIsNamed_commandLine hargs, hnodup, hnamed⟩

section Loader

variable {readText : String → Except Failure Component}

/-- **A graph that is read is proper.** -/
theorem isProper_graph {v : Value} {g : Graph} (h : Component.graphOf readText v = .ok g) :
    g.IsProper := by
  obtain ⟨⟨tasks, entries, -, -, hentries⟩, found, hvalues⟩ := graph_read h
  obtain ⟨hnodup, hread⟩ := tasks_read hentries List.nodup_nil
  refine ⟨hnodup, fun entry hentry => ?_, outputValues_differ hvalues,
    isNamed_outputValues hvalues⟩
  obtain hdone | ⟨key, value, -, htask⟩ := hread entry hentry
  · cases hdone
  obtain ⟨⟨arguments, harguments⟩, -⟩ := task_read htask
  obtain ⟨hkeys, hnamed⟩ := forall_readEntries (fun _ _ => isNamed_argument) harguments
  exact ⟨hkeys, hnamed⟩

/-- **A component that is read is proper.** -/
theorem isProper_of_read {v : Value} {c : Component}
    (h : Component.ofValueWith readText v = .ok c) : c.IsProper := by
  have hdiffer := namesDiffer_of_read h
  have himplementation := implementation_read h
  rw [ofValueWith_eq] at h
  obtain ⟨fields, -, h⟩ := readMapping_eq_ok.mp h
  obtain ⟨implementation, -, h⟩ := bind_eq_ok.mp h
  obtain ⟨inputs, hinputs, h⟩ := bind_eq_ok.mp h
  obtain ⟨outputs, houtputs, h⟩ := bind_eq_ok.mp h
  obtain ⟨metadata, -, h⟩ := bind_eq_ok.mp h
  obtain rfl := pure_eq_ok.mp h
  obtain ⟨inputItems, -, hinputs⟩ := bind_eq_ok.mp hinputs
  obtain ⟨outputItems, -, houtputs⟩ := bind_eq_ok.mp houtputs
  -- The names have been looked at already; what is left is the container or the graph.
  constructor
  case inputs => exact List.forall_mem_map.mpr (named_inputs hinputs)
  case inputsDiffer => exact hdiffer.inputs
  case outputs => exact List.forall_mem_map.mpr (named_outputs houtputs)
  case outputsDiffer => exact hdiffer.outputs
  case container =>
    rintro container rfl
    obtain ⟨_, _, -, hread, himpl⟩ | ⟨_, _, -, -, himpl⟩ := himplementation
    · obtain rfl := Implementation.container.inj himpl
      exact isProper_container hread
    · cases himpl
  case graph =>
    rintro g rfl
    obtain ⟨_, _, -, -, himpl⟩ | ⟨_, _, -, hread, himpl⟩ := himplementation
    · cases himpl
    · obtain rfl := Implementation.graph.inj himpl
      exact isProper_graph hread

end Loader
end PipelineCompiler
