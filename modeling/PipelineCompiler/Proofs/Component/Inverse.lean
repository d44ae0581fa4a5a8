import PipelineCompiler.Proofs.Component.Proper

namespace PipelineCompiler

/-!
# Loading inverts writing

* `fieldOrNull_carriedField` and its siblings — fields that are read as they were written;
* `ofValue_toValue_placeholder`, `ofValue_toValue_argument`, `ofValue_toValue_container` and their
  siblings — parts that are read as they were written;
* `ofValueWith_toValue` — a component is read as it was written, at any depth;
* `loading_inverts_writing` — loading inverts writing, and nothing is loaded that is not proper.
-/

/-! ### Fields -/

section Fields

variable {inFull : Bool}

/-- Fields behind fields. -/
theorem field?_append (xs ys : Value.Entries) (name : String) :
    Value.field? (xs ++ ys) name = (Value.field? xs name).or (Value.field? ys name) := by
  induction xs with
  | nil => rfl
  | cons entry rest ih =>
    obtain ⟨key, value⟩ := entry
    rw [List.cons_append, field?_cons, field?_cons, ih]
    split <;> rfl

/-- The field for a text key. -/
theorem field?_cons_str (key name : String) (value : Value) (rest : Value.Entries) :
    Value.field? ((.str key, value) :: rest) name =
      if key = name then some value else Value.field? rest name := rfl

/-- A field that may be left out is found under its own name only. -/
theorem field?_optionalField (key name : String) (isAbsent : Bool) (v : Value) :
    Value.field? (Value.optionalField inFull key isAbsent v) name =
      if key = name then (if isAbsent && !inFull then none else some v) else none := by
  unfold Value.optionalField
  by_cases hkey : key = name <;> cases isAbsent <;> cases inFull <;> simp [Value.field?, hkey]

/-- The same for what is carried along. -/
theorem field?_carriedField (key name : String) (v : Value) :
    Value.field? (Value.carriedField inFull key v) name =
      if key = name then (if (v == .null) && !inFull then none else some v) else none :=
  field?_optionalField key name _ v

/-- What is carried along is null when it is left out. -/
theorem getD_carried (v : Value) :
    (if (v == .null) && !inFull then none else some v).getD .null = v := by
  cases hnull : v == Value.null with
  | false => rfl
  | true =>
    obtain rfl := eq_null hnull
    cases inFull <;> rfl

/-- A list that is left out is empty. -/
theorem itemsOf_getD (what : String) (items : List Value) :
    itemsOf what ((if items.isEmpty && !inFull then none else some (.list items)).getD .null) =
      .ok items := by
  cases items <;> cases inFull <;> rfl

/-- A free-form mapping that is left out is empty. -/
theorem mappingOrEmpty_getD (entries : Value.Entries) :
    Value.mappingOrEmpty ((if entries.isEmpty && !inFull then none else some (.map entries)).getD
      .null) = .ok entries := by
  cases entries <;> cases inFull <;> rfl

/-- A mapping with names that is left out is empty. -/
theorem namedEntries_getD (what : String) (entries : Value.Entries) :
    namedEntries what ((if entries.isEmpty && !inFull then none else some (.map entries)).getD
      .null) = .ok entries := by
  cases entries <;> cases inFull <;> rfl

/-- Steps that put every entry under its name give the entries as they were written, behind those
    that are done. -/
theorem foldlM_toEntries {α : Type}
    {step : Keyed α → Value × Value → Except Failure (Keyed α)}
    {write : α → Value} {entries : Keyed α} (done : Keyed α)
    (hstep : ∀ entry ∈ entries, ∀ done,
      step done (.str entry.1, write entry.2) = .ok (Keyed.put done entry.1 entry.2))
    (hnodup : (Keyed.keys (done ++ entries)).Nodup) :
    (Keyed.toEntries write entries).foldlM step done = .ok (done ++ entries) := by
  -- By induction on the entries; each has a new name, so that it goes to the end.
  induction entries generalizing done with
  | nil =>
    rw [List.append_nil]
    rfl
  | cons entry rest ih =>
    obtain ⟨name, a⟩ := entry
    have hnew : name ∉ Keyed.keys done := by
      rw [Keyed.keys_append] at hnodup
      exact fun hmem => List.disjoint_of_nodup_append hnodup hmem List.mem_cons_self
    rw [Keyed.toEntries, List.map_cons, List.foldlM_cons, hstep _ List.mem_cons_self,
      Keyed.put_of_not_mem hnew]
    show (Keyed.toEntries write rest).foldlM step (done ++ [(name, a)]) = _
    rw [ih _ (fun entry hentry => hstep entry (List.mem_cons_of_mem _ hentry))
      (by rwa [List.append_assoc]), List.append_assoc]
    rfl

/-- Named entries are read as they were written. -/
theorem readEntries_toEntries {α : Type} {read : Value → Except Failure α}
    {write : α → Value}
    {entries : Keyed α} (hread : ∀ entry ∈ entries, read (write entry.2) = .ok entry.2)
    (hnodup : (Keyed.keys entries).Nodup) :
    readEntries read (Keyed.toEntries write entries) = .ok entries :=
  foldlM_toEntries [] (fun entry hentry done => by rw [hread entry hentry]; rfl) hnodup

end Fields

/-! ### Command lines -/

/-- A name is read. -/
theorem nameOf?_str {name : String} (h : NotBlank name) : nameOf? (.str name) = some name := by
  rw [nameOf?, show Text.isBlankText name = false from h]
  rfl

/-- A name under a kind is read. -/
theorem nameUnder_str (kind noun : String) {name : String} (h : NotBlank name) :
    nameUnder kind noun (.str name) = .ok name := by
  rw [nameUnder, nameOf?_str h]

/-- A condition is read as it was written. -/
theorem ofValue_toValue_condition {condition : Condition} (h : condition.IsNamed) :
    Condition.ofValue condition.toValue = .ok condition := by
  cases condition with
  | bool | text => rfl
  | isPresent input =>
    show (nameUnder "isPresent" "input" (.str input)).map Condition.isPresent = _
    rw [nameUnder_str _ _ h]
    rfl
  | inputValue input =>
    show (nameUnder "inputValue" "input" (.str input)).map Condition.inputValue = _
    rw [nameUnder_str _ _ h]
    rfl

section CommandLines

variable (inFull : Bool)

mutual

/-- A placeholder is read as it was written. -/
theorem ofValue_toValue_placeholder : ∀ p : Placeholder, p.IsNamed →
    Placeholder.parse (p.toValue inFull) = .ok p
  | .literal text, _ => rfl
  | .inputValue input, h => by
    show (nameUnder "inputValue" "input" (.str input)).map Placeholder.inputValue = _
    rw [nameUnder_str _ _ h]
    rfl
  | .inputPath input, h => by
    show (nameUnder "inputPath" "input" (.str input)).map Placeholder.inputPath = _
    rw [nameUnder_str _ _ h]
    rfl
  | .outputPath output, h => by
    show (nameUnder "outputPath" "output" (.str output)).map Placeholder.outputPath = _
    rw [nameUnder_str _ _ h]
    rfl
  | .concat items, h => by
    show (Placeholder.ofValues (Placeholder.toValues inFull items)).map Placeholder.concat = _
    rw [ofValues_toValues items h]
    rfl
  -- The branch for the other case may have been left out, so its field is read back on its own.
  | .branch condition yes no, ⟨hcondition, hyes, hno⟩ => by
    show Placeholder.branchOf (.map ([(Value.str "cond", condition.toValue),
      (Value.str "then", .list (Placeholder.toValues inFull yes))] ++
        Placeholder.noField inFull no)) = _
    rw [Placeholder.branchOf, List.cons_append, field?_cons_str, if_pos rfl]
    show (Condition.ofValue condition.toValue >>= fun condition =>
      Placeholder.ofValues (Placeholder.toValues inFull yes) >>= fun yes =>
      Placeholder.noOf (Placeholder.noField inFull no) >>= fun no =>
        pure (Placeholder.branch condition yes no)) = .ok _
    rw [ofValue_toValue_condition hcondition, ofValues_toValues yes hyes, noOf_noField no hno]
    rfl

/-- So are placeholders, one after another. -/
theorem ofValues_toValues : ∀ items : List Placeholder, Placeholder.AreNamed items →
    Placeholder.ofValues (Placeholder.toValues inFull items) = .ok items
  | [], _ => rfl
  | item :: rest, ⟨hitem, hrest⟩ => by
    rw [Placeholder.toValues, Placeholder.ofValues, ofValue_toValue_placeholder item hitem,
      ofValues_toValues rest hrest]
    rfl

/-- So is the other branch. -/
theorem noOf_noField : ∀ no : Option (List Placeholder), Placeholder.NoIsNamed no →
    Placeholder.noOf (Placeholder.noField inFull no) = .ok no
  | none, _ => by cases inFull <;> rfl
  | some items, h => by
    show (Placeholder.ofValues (Placeholder.toValues inFull items)).map some = _
    rw [ofValues_toValues items h]
    rfl

end

/-- A command line stands under its own name only. -/
theorem field?_lineField (key name : String) (line : Option (List Placeholder)) :
    Value.field? (Placeholder.lineField inFull key line) name =
      if key = name then
        line.elim (if !inFull then none else some .null) fun items =>
          some (.list (Placeholder.toValues inFull items))
      else none := by
  cases line with
  | none => exact field?_optionalField ..
  | some items => rfl

/-- A command line is read as it was written, or as absent. -/
theorem commandLine_getD (what : String) {line : Option (List Placeholder)}
    (h : Placeholder.NoIsNamed line) :
    commandLine what ((line.elim (if !inFull then none else some .null) fun items =>
      some (.list (Placeholder.toValues inFull items))).getD .null) = .ok line := by
  cases line with
  | none => cases inFull <;> rfl
  | some items =>
    show (Placeholder.ofValues (Placeholder.toValues inFull items)).map some = _
    rw [ofValues_toValues inFull items h]
    rfl

end CommandLines

/-! ### Arguments -/

section Parts

variable (inFull : Bool)

/-- Values under names can be shown when each of them can. -/
theorem areShownEntries_append (xs ys : Value.Entries) :
    Value.areShownEntries [] (xs ++ ys) =
      (Value.areShownEntries [] xs && Value.areShownEntries [] ys) := by
  induction xs with
  | nil => rfl
  | cons entry rest ih =>
    obtain ⟨key, value⟩ := entry
    rw [List.cons_append, Value.areShownEntries, Value.areShownEntries, ih]
    simp only [Bool.and_assoc]

/-- A type that is carried along can be shown when it can. -/
theorem areShown_carriedField (name : String) {v : Value} (h : v.isShown) :
    Value.areShownEntries [] (Value.carriedField inFull name v) = true := by
  unfold Value.carriedField Value.optionalField
  split
  · rfl
  · show (true && Value.isShownWithin [] v && true) = true
    rw [show Value.isShownWithin [] v = true from h]
    rfl

/-- A mapping under a kind is read as an argument of the kind. -/
theorem ofValue_ofKind (kind : String) {fields : Value.Entries}
    (h : Value.areShownEntries [] fields = true) :
    Argument.parse (.ofKind kind (.map fields)) = Argument.ofKind (.str kind) (.map fields) := by
  have hshown : (Value.ofKind kind (.map fields)).isShown = true := by
    show (true && Value.areShownEntries [] fields && true) = true
    rw [h]
    rfl
  show (if (Value.ofKind kind (.map fields)).isShown then _ else _) = _
  rw [if_pos hshown]
  rfl

/-- A name under a field is read. -/
theorem requiredName_str {fields : Value.Entries} {kind field name : String}
    (hfield : Value.field? fields field = some (.str name)) (h : NotBlank name) :
    requiredName fields kind field = .ok name := by
  rw [requiredName, Value.fieldOrNull, hfield, Option.getD_some, nameOf?_str h]

/-- An output of a task is read as it was written. -/
theorem ofValue_toValue_taskOutput {source : TaskOutput} (h : source.IsNamed)
    (hshown : source.type.isShown) :
    Argument.parse (source.toValue inFull) = .ok (.taskOutput source) := by
  have hfields : Value.areShownEntries []
      ([(Value.str "taskId", Value.str source.task),
        (Value.str "outputName", Value.str source.output)] ++
        Value.carriedField inFull "type" source.type) = true := by
    rw [areShownEntries_append, areShown_carriedField inFull _ hshown]
    rfl
  rw [TaskOutput.toValue, ofValue_ofKind _ hfields]
  show (requiredName _ "taskOutput" "taskId" >>= fun task =>
    requiredName _ "taskOutput" "outputName" >>= fun output =>
      pure (Argument.taskOutput { task, output, type := Value.fieldOrNull _ "type" })) = _
  rw [requiredName_str rfl h.task, requiredName_str rfl h.output]
  simp only [bind, Except.bind, pure, Except.pure, List.cons_append, List.nil_append,
    Value.fieldOrNull, field?_cons_str, field?_carriedField, String.reduceEq, if_false, if_true,
    getD_carried]

/-- An argument is read as it was written. -/
theorem ofValue_toValue_argument {a : Argument} (h : a.IsNamed) (hshown : a.type.isShown) :
    Argument.parse (a.toValue inFull) = .ok a := by
  cases a with
  | literal text => rfl
  | taskOutput source => exact ofValue_toValue_taskOutput inFull h hshown
  | graphInput input type =>
    have hfields : Value.areShownEntries [] ((.str "inputName", .str input) ::
        Value.carriedField inFull "type" type) = true := by
      show (true && true && _) = true
      rw [areShown_carriedField inFull _ (v := type) hshown]
      rfl
    rw [Argument.toValue, ofValue_ofKind _ hfields]
    show (requiredName _ "graphInput" "inputName" >>= fun input =>
      pure (Argument.graphInput input (Value.fieldOrNull _ "type"))) = _
    rw [requiredName_str rfl h]
    simp only [bind, Except.bind, pure, Except.pure, Value.fieldOrNull, field?_cons_str,
      field?_carriedField, String.reduceEq, if_false, if_true,
    getD_carried]

/-! ### Interfaces -/

/-- A new name is declared. -/
theorem declaredName_str {noun place name : String} {seen : List String} {fields : Value.Entries}
    (hfield : Value.field? fields "name" = some (.str name)) (h : NotBlank name)
    (hnew : name ∉ seen) : declaredName noun place seen fields = .ok name := by
  rw [declaredName, Value.fieldOrNull, hfield, Option.getD_some, nameOf?_str h]
  exact if_neg hnew

/-- An input is read as it was written, if its name is new. -/
theorem ofValue_toValue_input (place : String) {seen : List String} {input : InputSpec}
    (h : NotBlank input.name) (hnew : input.name ∉ seen) :
    InputSpec.ofValue place seen (input.toValue inFull) = .ok input := by
  obtain ⟨name, type, description, default, isOptional, annotations⟩ := input
  show (declaredName "input" place seen _ >>= fun name =>
    optionality place _ >>= fun isOptional =>
    defaultText (Value.fieldOrNull _ "default") >>= fun default =>
    Value.mappingOrEmpty (Value.fieldOrNull _ "annotations") >>= fun annotations =>
      pure ({ name, default, isOptional, annotations
              type := Value.fieldOrNull _ "type"
              description := Value.fieldOrNull _ "description" } : InputSpec)) = _
  rw [declaredName_str rfl h hnew]
  -- The optional fields of the entry are written only where they say something, so each of them is
  -- looked up in both cases.
  have hoptional : optionality place ((.str "name", .str name) ::
      (Value.carriedField inFull "type" type ++
        Value.carriedField inFull "description" description ++
        Value.carriedField inFull "default" (default.elim .null .str) ++
        Value.optionalField inFull "optional" (!isOptional) (.bool isOptional) ++
        Value.mappingField inFull "annotations" annotations)) = .ok isOptional := by
    simp only [optionality, field?_cons_str, field?_append, Value.carriedField, Value.mappingField,
      field?_optionalField, String.reduceEq, if_false, if_true, Option.none_or, Option.or_none]
    cases isOptional <;> cases inFull <;> rfl
  have hdefault : defaultText (default.elim .null .str) = .ok default := by
    cases default <;> rfl
  rw [hoptional]
  simp only [bind, Except.bind, pure, Except.pure, Value.fieldOrNull, field?_cons_str,
    field?_append, Value.carriedField, Value.mappingField, field?_optionalField, String.reduceEq,
    if_false, if_true, Option.none_or, Option.or_none, getD_carried, hdefault, mappingOrEmpty_getD]

/-- An output is read as it was written, if its name is new. -/
theorem ofValue_toValue_output (place : String) {seen : List String} {output : OutputSpec}
    (h : NotBlank output.name) (hnew : output.name ∉ seen) :
    OutputSpec.ofValue place seen (output.toValue inFull) = .ok output := by
  obtain ⟨name, type, description, annotations⟩ := output
  show (declaredName "output" place seen _ >>= fun name =>
    Value.mappingOrEmpty (Value.fieldOrNull _ "annotations") >>= fun annotations =>
      pure ({ name, annotations
              type := Value.fieldOrNull _ "type"
              description := Value.fieldOrNull _ "description" } : OutputSpec)) = _
  rw [declaredName_str rfl h hnew]
  simp only [bind, Except.bind, pure, Except.pure, Value.fieldOrNull, field?_cons_str,
    field?_append, Value.carriedField, Value.mappingField, field?_optionalField, String.reduceEq,
    if_false, if_true, Option.none_or, Option.or_none, getD_carried, mappingOrEmpty_getD]

/-- Names that are different, behind those that were seen. -/
theorem nodup_snoc {seen names : List String} {name : String}
    (h : (seen ++ name :: names).Nodup) : name ∉ seen ∧ (seen ++ [name] ++ names).Nodup := by
  refine ⟨fun hmem => List.disjoint_of_nodup_append h hmem List.mem_cons_self, ?_⟩
  rwa [List.append_assoc]

/-- Inputs are read as they were written. -/
theorem ofItems_inputs {inputs : List InputSpec} (seen : List String)
    (hnamed : ∀ name ∈ inputs.map InputSpec.name, NotBlank name)
    (hnodup : (seen ++ inputs.map InputSpec.name).Nodup) (index : Nat) :
    InputSpec.ofItems seen index (inputs.map (InputSpec.toValue inFull)) = .ok inputs := by
  induction inputs generalizing seen index with
  | nil => rfl
  | cons input rest ih =>
    obtain ⟨hnew, hrest⟩ := nodup_snoc hnodup
    rw [List.map_cons, InputSpec.ofItems,
      ofValue_toValue_input inFull _ (hnamed _ List.mem_cons_self) hnew]
    show (InputSpec.ofItems (seen ++ [input.name]) (index + 1) _ >>= fun others =>
      pure (input :: others)) = _
    rw [ih _ (fun name hname => hnamed name (List.mem_cons_of_mem _ hname)) hrest]
    rfl

/-- Outputs are read as they were written. -/
theorem ofItems_outputs {outputs : List OutputSpec} (seen : List String)
    (hnamed : ∀ name ∈ outputs.map OutputSpec.name, NotBlank name)
    (hnodup : (seen ++ outputs.map OutputSpec.name).Nodup) (index : Nat) :
    OutputSpec.ofItems seen index (outputs.map (OutputSpec.toValue inFull)) = .ok outputs := by
  induction outputs generalizing seen index with
  | nil => rfl
  | cons output rest ih =>
    obtain ⟨hnew, hrest⟩ := nodup_snoc hnodup
    rw [List.map_cons, OutputSpec.ofItems,
      ofValue_toValue_output inFull _ (hnamed _ List.mem_cons_self) hnew]
    show (OutputSpec.ofItems (seen ++ [output.name]) (index + 1) _ >>= fun others =>
      pure (output :: others)) = _
    rw [ih _ (fun name hname => hnamed name (List.mem_cons_of_mem _ hname)) hrest]
    rfl

/-! ### Containers and graphs -/

/-- A container is read as it was written. -/
theorem ofValue_toValue_container {container : Container} (h : container.IsProper) :
    Container.ofValue (container.toValue inFull) = .ok container := by
  obtain ⟨image, command, args, env⟩ := container
  have himage : nameOf? (.str image) = some image := nameOf?_str h.image
  have hread : readEntries Placeholder.parse (Keyed.toEntries (Placeholder.toValue inFull) env) =
      .ok env :=
    readEntries_toEntries (fun entry hentry =>
      ofValue_toValue_placeholder inFull entry.2 (h.env entry hentry)) h.envKeys
  unfold Container.ofValue Container.toValue
  simp only [Value.bare, Value.fieldOrNull, field?_cons_str, field?_append, Value.mappingField,
    field?_lineField, field?_optionalField, String.reduceEq, if_false, if_true, Option.none_or,
    Option.or_none, Option.getD_some, himage, namedEntries_getD,
      commandLine_getD inFull _ h.command,
    commandLine_getD inFull _ h.args, hread, bind, Except.bind, pure, Except.pure]

/-- The outputs of a graph are read as they were written. -/
theorem outputValuesOf_toEntries {outputValues : List (String × TaskOutput)}
    (hnodup : (Keyed.keys outputValues).Nodup)
    (hnamed : ∀ entry ∈ outputValues, entry.2.IsNamed)
    (hshown : ∀ entry ∈ outputValues, entry.2.type.isShown) :
    outputValuesOf
        ((if (Keyed.toEntries (TaskOutput.toValue inFull) outputValues).isEmpty && !inFull
          then none
          else some (.map (Keyed.toEntries (TaskOutput.toValue inFull) outputValues))).getD .null) =
      .ok outputValues := by
  -- In short form, no outputs at all are written as nothing, and nothing is read as no outputs.
  cases hentries : Keyed.toEntries (TaskOutput.toValue inFull) outputValues with
  | nil =>
    obtain rfl := List.map_eq_nil_iff.mp hentries
    cases inFull <;> rfl
  | cons first rest =>
    show outputValuesOf (.map (first :: rest)) = _
    rw [outputValuesOf, if_pos (show (Value.map (first :: rest)).isTruthy = true from rfl)]
    dsimp only [Value.bare]
    rw [← hentries]
    refine foldlM_toEntries [] (fun entry hentry done => ?_) hnodup
    rw [ofValue_toValue_taskOutput inFull (hnamed entry hentry) (hshown entry hentry)]
    rfl

end Parts

/-! ### Components -/

/-- What has to hold of a component, and of all components within it, to be read as it was
    written. -/
def Component.IsWritable (c : Component) : Prop := c.IsProper ∧ c.ShowsTypes

section Components

variable (inFull : Bool) (readText : String → Except Failure Component)

mutual

/-- **A component is read as it was written.** -/
theorem ofValueWith_toValue : ∀ c : Component, c.Throughout Component.IsWritable →
    Component.ofValueWith readText (c.toValue inFull) = .ok c
  | ⟨implementation, name, description, inputs, outputs, metadata⟩, h => by
    have himplementation := implementationOf_toValue implementation
      (fun container himpl => h.self.1.container container himpl)
      (fun g himpl => ⟨h.self.1.graph g himpl, h.self.2 g himpl⟩)
      (fun g himpl entry hentry component hspec => by
        cases h with
        | intro _ inner => exact inner g himpl entry hentry component hspec)
    have hinputs := ofItems_inputs inFull [] h.self.1.inputs h.self.1.inputsDiffer 0
    have houtputs := ofItems_outputs inFull [] h.self.1.outputs h.self.1.outputsDiffer 0
    rw [Component.toValue, ofValueWith_eq]
    simp only [Value.readMapping, Value.bare, implementationField_eq, Value.fieldOrNull,
      field?_append, Value.carriedField, Value.listField, Value.mappingField, field?_optionalField,
      Value.field?, String.reduceEq, if_false, if_true, Option.none_or,
      Option.or_none, Option.elim_some, himplementation, getD_carried, mappingOrEmpty_getD,
      InputSpec.ofValues, OutputSpec.ofValues, itemsOf_getD, hinputs, houtputs, bind, Except.bind,
      pure, Except.pure]

/-- So is an implementation. -/
theorem implementationOf_toValue : ∀ implementation : Implementation,
    (∀ container, implementation = .container container → container.IsProper) →
    (∀ g, implementation = .graph g → g.IsProper ∧
      (∀ task ∈ g.tasks, ∀ entry ∈ task.2.arguments, entry.2.type.isShown) ∧
        ∀ entry ∈ g.outputValues, entry.2.type.isShown) →
    (∀ g, implementation = .graph g → ∀ entry ∈ g.tasks, ∀ component,
      entry.2.reference.spec = some component → component.Throughout Component.IsWritable) →
    Component.implementationOf readText (Component.implementationValue inFull implementation) =
      .ok implementation
  | .container container, hcontainer, _, _ => by
    rw [Component.implementationValue, implementationOf_eq]
    show (Container.ofValue (container.toValue inFull)).map Implementation.container = _
    rw [ofValue_toValue_container inFull (hcontainer container rfl)]
    rfl
  | .graph ⟨tasks, outputValues⟩, _, hgraph, hinner => by
    obtain ⟨hproper, hshown, hvalues⟩ := hgraph _ rfl
    have htasks := taskEntries_toValue tasks [] hproper.taskKeys hproper.tasks hshown
      (hinner _ rfl)
    have houtputs := outputValuesOf_toEntries inFull hproper.outputKeys hproper.outputValues hvalues
    rw [Component.implementationValue, implementationOf_eq]
    show (Component.graphOf readText _).map Implementation.graph = _
    rw [graphOf_eq]
    simp only [Value.readMapping, Value.bare, tasksField_eq, tasksOf_eq, Value.fieldOrNull,
      field?_cons_str, Value.mappingField, field?_optionalField, String.reduceEq, if_false, if_true,
      Option.elim_some, htasks, houtputs, List.nil_append, bind, Except.bind, pure, Except.pure,
      Except.map]

/-- So are tasks, behind those that are done. -/
theorem taskEntries_toValue : ∀ tasks done : List (String × GraphTask),
    (Keyed.keys (done ++ tasks)).Nodup → (∀ entry ∈ tasks, entry.2.IsProper) →
    (∀ task ∈ tasks, ∀ entry ∈ task.2.arguments, entry.2.type.isShown) →
    (∀ entry ∈ tasks, ∀ component, entry.2.reference.spec = some component →
      component.Throughout Component.IsWritable) →
    Component.taskEntries readText done (Component.taskEntriesValue inFull tasks) =
      .ok (done ++ tasks)
  | [], done, _, _, _, _ => by
    rw [List.append_nil]
    rfl
  | (id, task) :: rest, done, hnodup, hproper, hshown, hinner => by
    have htask := taskOf_toValue task (hproper _ List.mem_cons_self) (hshown _ List.mem_cons_self)
      (hinner _ List.mem_cons_self)
    -- Tasks are put under their names one by one, and each name is new then.
    have hnew : id ∉ Keyed.keys done := by
      rw [Keyed.keys_append] at hnodup
      exact fun hmem => List.disjoint_of_nodup_append hnodup hmem List.mem_cons_self
    rw [Component.taskEntriesValue, Component.taskEntries, htask]
    show Component.taskEntries readText (Keyed.put done id task) _ = _
    rw [Keyed.put_of_not_mem hnew, taskEntries_toValue rest _ (by rwa [List.append_assoc])
      (fun entry hentry => hproper entry (List.mem_cons_of_mem _ hentry))
      (fun entry hentry => hshown entry (List.mem_cons_of_mem _ hentry))
      (fun entry hentry => hinner entry (List.mem_cons_of_mem _ hentry)), List.append_assoc]
    rfl

/-- So is a task. -/
theorem taskOf_toValue : ∀ task : GraphTask, task.IsProper →
    (∀ entry ∈ task.arguments, entry.2.type.isShown) →
    (∀ component, task.reference.spec = some component →
      component.Throughout Component.IsWritable) →
    Component.taskOf readText (Component.taskValue inFull task) = .ok task
  | ⟨⟨name, digest, tag, url, spec⟩, arguments, annotations⟩, hproper, hshown, hinner => by
    have hspec := specField_toValue spec hinner
    have harguments : readEntries Argument.parse
        (Keyed.toEntries (Argument.toValue inFull) arguments) = .ok arguments :=
      readEntries_toEntries (fun entry hentry => ofValue_toValue_argument inFull
        (hproper.arguments entry hentry) (hshown entry hentry)) hproper.argumentKeys
    -- The reference is read first: its component stands in a field of its own, behind all others.
    have hreference : Component.referenceOf readText (.map (Value.carriedField inFull "name" name ++
        Value.carriedField inFull "digest" digest ++ Value.carriedField inFull "tag" tag ++
        Value.carriedField inFull "url" url ++ Component.specEntries inFull spec)) =
        .ok ⟨name, digest, tag, url, spec⟩ := by
      have hothers (field : String) (h : field ≠ "spec") :
          Value.field? (Component.specEntries inFull spec) field = none := by
        cases spec with
        | none => rw [Component.specEntries, field?_optionalField, if_neg h.symm]
        | some component => rw [Component.specEntries, field?_cons_str, if_neg h.symm]; rfl
      have hgiven := hspec (Value.carriedField inFull "name" name ++
        Value.carriedField inFull "digest" digest ++ Value.carriedField inFull "tag" tag ++
        Value.carriedField inFull "url" url) (by
          simp only [field?_append, field?_carriedField, String.reduceEq, if_false, Option.or_none])
      rw [referenceOf_eq]
      simp only [Value.readMapping, Value.bare, hgiven, Value.fieldOrNull, field?_append,
        hothers "text" (by decide), hothers "name" (by decide), hothers "digest" (by decide),
        hothers "tag" (by decide), hothers "url" (by decide), field?_carriedField,
        String.reduceEq, if_false, if_true, Option.none_or, Option.or_none,
        getD_carried, bind, Except.bind, pure, Except.pure]
      cases spec <;> rfl
    rw [Component.taskValue, taskOf_eq]
    simp only [Value.readMapping, Value.bare, referenceField_eq, Value.fieldOrNull,
      field?_cons_str, field?_append, Value.mappingField, field?_optionalField, String.reduceEq,
      if_false, if_true, Bool.false_eq_true, Option.elim_some, Option.none_or, Option.or_none,
      Option.isNone_some,
      namedEntries_getD, mappingOrEmpty_getD, hreference, harguments, bind, Except.bind, pure,
      Except.pure]

/-- So is the component of a reference. -/
theorem specField_toValue : ∀ spec : Option Component,
    (∀ component, spec = some component → component.Throughout Component.IsWritable) →
    ∀ others : Value.Entries, Value.field? others "spec" = none →
    Component.specField readText (others ++ Component.specEntries inFull spec) = .ok spec
  | none, _, others, hothers => by
    rw [specField_eq, field?_append, hothers, Component.specEntries, field?_optionalField]
    cases inFull <;> rfl
  | some component, h, others, hothers => by
    have hread := ofValueWith_toValue component (h component rfl)
    rw [specField_eq, field?_append, hothers, Component.specEntries]
    show (if (component.toValue inFull == .null) = true then _ else _) = _
    rw [if_neg (by cases component; exact Bool.false_ne_true), hread]
    rfl

end

end Components

/-- **Loading inverts writing**, whether absent fields are left out or written as empty, and also
    with a limit on calls that is not exceeded.  Whatever is loaded has names where it needs them,
    and different ones, at every depth. -/
theorem loading_inverts_writing :
    (∀ c : Component, c.Throughout Component.IsWritable → ∀ inFull,
      Component.parse (c.toValue inFull) = .ok c ∧
      ∀ limit, Component.callsFor (c.toValue inFull) ≤ limit →
        Component.ofValueWithin limit (c.toValue inFull) = .ok c) ∧
    ∀ (v : Value) (c : Component), Component.parse v = .ok c →
      c.Throughout Component.IsProper := by
  refine ⟨fun c h inFull => ?_, fun _ _ h => throughout_parse (fun _ _ _ => isProper_of_read) h⟩
  have hparse : Component.parse (c.toValue inFull) = .ok c := ofValueWith_toValue inFull _ c h
  exact ⟨hparse, fun limit hcalls => withinCalls_eq_ok.mpr ⟨hparse, hcalls⟩⟩

/-- A container with a condition in its command line, and an environment. -/
def conditionalContainer : Container :=
  { image := "a"
    command := some []
    args := some [.branch (.isPresent "x") [.concat [.literal "-", .inputValue "x"]] none,
      .outputPath "o"]
    env := [("", .inputValue "x")] }

/-- The component of this container. -/
def conditionalPrinter : Component :=
  { implementation := .container conditionalContainer, name := .null, description := .null
    inputs := [{ name := "x", default := some "", isOptional := true }]
    outputs := [{ name := "o", type := .str "Text" }], metadata := [] }

/-- The graph of one task, whose output is the output of the graph. -/
def conditionalGraph : Graph :=
  { tasks := [("t", ⟨⟨.null, .null, .null, .null, some conditionalPrinter⟩,
      [("x", .graphInput "y" (.str "Text"))], []⟩)]
    outputValues := [("o", { task := "t", output := "o" })] }

/-- The pipeline of this graph. -/
def conditionalPipeline : Component :=
  { implementation := .graph conditionalGraph, name := .str "c", description := .null
    inputs := [{ name := "y" }], outputs := [{ name := "o" }], metadata := [(.str "k", .int 5)] }

/-- This pipeline is loaded as it was written, in both ways. -/
theorem conditionalPipeline_inverts :
    conditionalPipeline.Throughout Component.IsWritable ∧
      (∀ inFull, Component.ofValue (conditionalPipeline.toValue inFull) =
        .ok conditionalPipeline) ∧
      conditionalPipeline.Throughout Component.IsProper := by
  have hcontainer : conditionalContainer.IsProper :=
    have hx : NotBlank "x" := by decide
    ⟨by decide, trivial, ⟨⟨hx, ⟨⟨trivial, hx, trivial⟩, trivial⟩, trivial⟩,
      (by decide : NotBlank "o"), trivial⟩, by decide, List.forall_mem_singleton.mpr hx⟩
  have hprinter : conditionalPrinter.Throughout Component.IsWritable :=
    .intro ⟨⟨by decide, by decide, by decide, by decide,
      fun container himpl => Implementation.container.inj himpl ▸ hcontainer,
      fun _ himpl => nomatch himpl⟩, fun _ himpl => nomatch himpl⟩ fun _ himpl => nomatch himpl
  have hgraph : conditionalGraph.IsProper :=
    ⟨by decide, List.forall_mem_singleton.mpr ⟨by decide,
      List.forall_mem_singleton.mpr (by decide : NotBlank "y")⟩, by decide,
      List.forall_mem_singleton.mpr ⟨(by decide : NotBlank "t"), (by decide : NotBlank "o")⟩⟩
  have hwritable : conditionalPipeline.Throughout Component.IsWritable := by
    refine .intro ⟨⟨by decide, by decide, by decide, by decide, (fun _ himpl => nomatch himpl),
      fun g himpl => Implementation.graph.inj himpl ▸ hgraph⟩, fun g himpl => ?_⟩
      fun g himpl entry hentry component hspec => ?_
    · obtain rfl := Implementation.graph.inj himpl
      exact ⟨List.forall_mem_singleton.mpr (List.forall_mem_singleton.mpr rfl),
        List.forall_mem_singleton.mpr rfl⟩
    · obtain rfl := Implementation.graph.inj himpl
      obtain rfl := List.mem_singleton.mp hentry
      obtain rfl := Option.some.inj hspec
      exact hprinter
  -- How many calls the written value takes is evaluated once for each of the two ways.
  have hcalls : ∀ inFull,
    Component.callsFor (conditionalPipeline.toValue inFull) ≤ callLimit := by
    intro inFull
    cases inFull with
    | false => decide
    | true => decide
  have hread := loading_inverts_writing.1 conditionalPipeline hwritable
  exact ⟨hwritable, fun inFull => (hread inFull).2 callLimit (hcalls inFull),
    loading_inverts_writing.2 _ _ (hread false).1⟩

end PipelineCompiler
