import Mathlib.Data.List.Forall2
import PipelineCompiler.Proofs.Component.Proper
import PipelineCompiler.Proofs.Component.Slips

namespace PipelineCompiler

/-!
# The forms of placeholders and arguments

Which values are read as placeholders and arguments, and as which, is said here by a grammar that
knows nothing of the order in which the loader looks at things.

* `Value.IsLiteral` — texts, truth values and numbers;
* `Condition.Form`, `Placeholder.Form`, `Argument.Form` — a value is the form of a condition, of a
  placeholder, of an argument;
* `condition_form`, `placeholder_form`, `argument_form` — what is read is what the value is a form
  of, as long as the value can be shown and its keys can be listed.
-/

/-! ### The grammar -/

/-- A text, a truth value or a number. -/
def Value.IsLiteral (v : Value) : Prop :=
  match v.bare with
  | .str _ | .bool _ | .int _ | .float _ => True
  | _ => False

/-- A value is the form of a condition. -/
inductive Condition.Form (v : Value) : Condition → Prop
  | bool {b : Bool} (shape : v.bare = .bool b) : Form v (.bool b)
  | text {s : String} (shape : v.bare = .str s) : Form v (.text s)
  | isPresent {name : String} (shape : v.bare = .map [(.str "isPresent", .str name)])
      (isName : NotBlank name) : Form v (.isPresent name)
  | inputValue {name : String} (shape : v.bare = .map [(.str "inputValue", .str name)])
      (isName : NotBlank name) : Form v (.inputValue name)

/-- A value is the form of a placeholder. -/
inductive Placeholder.Form : Value → Placeholder → Prop
  | literal {v : Value} (isLiteral : v.IsLiteral) : Form v (.literal v.text)
  | inputValue {v : Value} {name : String} (shape : v.bare = .map [(.str "inputValue", .str name)])
      (isName : NotBlank name) : Form v (.inputValue name)
  | inputPath {v : Value} {name : String} (shape : v.bare = .map [(.str "inputPath", .str name)])
      (isName : NotBlank name) : Form v (.inputPath name)
  | outputPath {v : Value} {name : String} (shape : v.bare = .map [(.str "outputPath", .str name)])
      (isName : NotBlank name) : Form v (.outputPath name)
  | concat {v list : Value} {items : List Value} {parts : List Placeholder}
      (shape : v.bare = .map [(.str "concat", list)]) (isList : list.bare = .list items)
      (forms : List.Forall₂ Form items parts) : Form v (.concat parts)
  /-- The other branch is absent or null. -/
  | branch {v value given list : Value} {fields : Value.Entries} {condition : Condition}
      {items : List Value} {yes : List Placeholder} (shape : v.bare = .map [(.str "if", value)])
      (isMapping : value.bare = .map fields) (cond : Value.field? fields "cond" = some given)
      (decides : Condition.Form given condition) (onYes : Value.field? fields "then" = some list)
      (isList : list.bare = .list items) (forms : List.Forall₂ Form items yes)
      (onNo : Value.fieldOrNull fields "else" = .null) : Form v (.branch condition yes none)
  | branchElse {v value given list other : Value} {fields : Value.Entries} {condition : Condition}
      {items others : List Value} {yes no : List Placeholder}
      (shape : v.bare = .map [(.str "if", value)]) (isMapping : value.bare = .map fields)
      (cond : Value.field? fields "cond" = some given) (decides : Condition.Form given condition)
      (onYes : Value.field? fields "then" = some list) (isList : list.bare = .list items)
      (forms : List.Forall₂ Form items yes) (onNo : Value.field? fields "else" = some other)
      (isOther : other.bare = .list others) (otherForms : List.Forall₂ Form others no) :
      Form v (.branch condition yes (some no))

/-- A value is the form of an argument.  The type is carried along as it is. -/
inductive Argument.Form (v : Value) : Argument → Prop
  | literal (isLiteral : v.IsLiteral) : Form v (.literal v.text)
  | graphInput {value : Value} {fields : Value.Entries} {input : String}
      (shape : v.bare = .map [(.str "graphInput", value)]) (isMapping : value.bare = .map fields)
      (inputName : Value.field? fields "inputName" = some (.str input)) (isName : NotBlank input) :
      Form v (.graphInput input (Value.fieldOrNull fields "type"))
  | taskOutput {value : Value} {fields : Value.Entries} {task output : String}
      (shape : v.bare = .map [(.str "taskOutput", value)]) (isMapping : value.bare = .map fields)
      (taskId : Value.field? fields "taskId" = some (.str task)) (isTask : NotBlank task)
      (outputName : Value.field? fields "outputName" = some (.str output))
      (isOutput : NotBlank output) :
      Form v (.taskOutput { task, output, type := Value.fieldOrNull fields "type" })

/-! ### Names and scalars -/

/-- A text is equal to itself. -/
theorem beq_self (name : String) : (Value.str name == .str name) = true := beq_str.mpr rfl

/-- Different texts are not equal. -/
theorem str_ne {name other : String} (h : name ≠ other) :
    ¬ (Value.str name == .str other) = true := fun heq => h (Value.str.inj (beq_str.mp heq))

/-- A name under a kind is a text that is not blank. -/
theorem nameUnder_eq_ok {kind noun name : String} {v : Value} :
    nameUnder kind noun v = .ok name ↔ v = .str name ∧ NotBlank name := by
  unfold nameUnder
  constructor
  · intro h
    split at h
    next found hfound =>
      obtain rfl := Except.ok.inj h
      exact nameOf?_eq_some hfound
    next => cases h
  · rintro ⟨rfl, hname⟩
    rw [nameOf?, if_neg (Bool.eq_false_iff.mp hname)]

/-- A required name is a text that is not blank. -/
theorem requiredName_eq_ok {fields : Value.Entries} {kind field name : String} :
    requiredName fields kind field = .ok name ↔
      Value.field? fields field = some (.str name) ∧ NotBlank name := by
  unfold requiredName
  constructor
  · intro h
    split at h
    next found hfound =>
      obtain rfl := Except.ok.inj h
      obtain ⟨hfield, hname⟩ := nameOf?_eq_some hfound
      exact ⟨field?_of_fieldOrNull hfield, hname⟩
    next => cases h
  · rintro ⟨hfield, hname⟩
    rw [Value.fieldOrNull, hfield, Option.getD_some, nameOf?, if_neg (Bool.eq_false_iff.mp hname)]

/-- A value that can be shown has its plain form. -/
theorem shownText_of_isTame {v : Value} (h : v.isTame) : v.shownText = .ok v.text := by
  unfold Value.shownText
  rw [Value.isShown_of_isTame h]
  rfl

/-- A literal that can be shown has its text. -/
theorem scalarText_of_isLiteral {v : Value} (h : v.IsLiteral) (htame : v.isTame) :
    scalarText? v = .ok (some v.text) := by
  have hshown : v.shownText.map some = .ok (some v.text) :=
    congrArg (Except.map some) (shownText_of_isTame htame)
  revert h
  unfold Value.IsLiteral scalarText?
  cases hbare : v.bare with
  | str s =>
    intro _
    rw [Value.text, hbare]
  | bool | int | float => exact fun _ => hshown
  | _ => exact False.elim

/-- Other values have none. -/
theorem scalarText_of_not_isLiteral {v : Value} (h : ¬ v.IsLiteral) :
    scalarText? v = .ok none := by
  unfold Value.IsLiteral at h
  unfold scalarText?
  split
  next s hbare => exact absurd (by rw [hbare]; trivial) h
  next b hbare => exact absurd (by rw [hbare]; trivial) h
  next i hbare => exact absurd (by rw [hbare]; trivial) h
  next x hbare => exact absurd (by rw [hbare]; trivial) h
  next => rfl

/-- A mapping is no literal. -/
theorem not_isLiteral_of_map {v : Value} {fields : Value.Entries} (h : v.bare = .map fields) :
    ¬ v.IsLiteral := by
  unfold Value.IsLiteral
  rw [h]
  exact not_false

/-! ### Conditions -/

/-- **A condition is read from its forms.** -/
theorem condition_form {v : Value} {condition : Condition} :
    Condition.ofValue v = .ok condition ↔ Condition.Form v condition := by
  unfold Condition.ofValue
  -- One way the cases are those of the reader, the other way those of the forms.
  constructor
  · intro h
    split at h
    next b hbare => exact Except.ok.inj h ▸ .bool hbare
    next s hbare => exact Except.ok.inj h ▸ .text hbare
    next kind value hbare =>
      split at h
      next hkind =>
        obtain ⟨name, hname, rfl⟩ := map_eq_ok.mp h
        obtain ⟨rfl, isName⟩ := nameUnder_eq_ok.mp hname
        exact .isPresent (beq_str.mp hkind ▸ hbare) isName
      split at h
      next hkind =>
        obtain ⟨name, hname, rfl⟩ := map_eq_ok.mp h
        obtain ⟨rfl, isName⟩ := nameUnder_eq_ok.mp hname
        exact .inputValue (beq_str.mp hkind ▸ hbare) isName
      · cases h
    next => cases h
    next => cases h
  · intro h
    cases h with
    | bool shape => rw [shape]
    | text shape => rw [shape]
    | isPresent shape isName =>
      simp only [shape]
      rw [if_pos (beq_self _), nameUnder_eq_ok.mpr ⟨rfl, isName⟩]
      rfl
    | inputValue shape isName =>
      simp only [shape]
      rw [if_neg (str_ne (by decide)), if_pos (beq_self _),
        nameUnder_eq_ok.mpr ⟨rfl, isName⟩]
      rfl

/-! ### Placeholders -/

namespace Placeholder

/-- A mapping is read wherever it stands. -/
theorem parse_of_map {v : Value} {entries : Value.Entries} (h : v.bare = .map entries) :
    parse v = parse (.map entries) := by
  induction v using Value.bare.induct with
  | case1 place v ih =>
    have hinner : v.bare = .map entries := h
    have hmap : v.isMapping = true := by rw [Value.isMapping, hinner]
    calc parse (.placed place v) = parse v := by rw [parse, if_pos hmap]
      _ = parse (.map entries) := ih hinner
  | case2 v hbare =>
    cases v with
    | placed place inner => exact absurd rfl (hbare place inner)
    | map fields =>
      obtain rfl := Value.map.inj h
      rfl
    | _ => cases h

/-- Other values are read as scalars. -/
theorem parse_of_not_map {v : Value} (htame : v.isTame) (h : v.isMapping = false) :
    parse v = ofScalar v := by
  cases v with
  | map fields => cases h
  | placed place inner =>
    have hinner : inner.isMapping = false := h
    rw [parse, if_neg (Bool.eq_false_iff.mp hinner)]
  | endless => cases htame
  | _ => rfl

/-- A list is read wherever it stands. -/
theorem listOf_eq_ok {what : String} {v : Value} {parts : List Placeholder} :
    listOf what v = .ok parts ↔ ∃ items, v.bare = .list items ∧
      ofValues items = .ok parts := by
  -- By induction on the places around the list.
  induction v using Value.bare.induct with
  | case1 place v ih =>
    rw [listOf, Value.bare]
    exact ih
  | case2 v hbare =>
    cases v with
    | placed place inner => exact absurd rfl (hbare place inner)
    | list items =>
      rw [listOf, Value.bare]
      · refine ⟨fun h => ⟨items, rfl, h⟩, fun h => ?_⟩
        obtain ⟨others, heq, hothers⟩ := h
        exact Value.list.inj heq ▸ hothers
      · exact hbare
    | _ =>
      constructor
      · intro h
        cases h
      · intro h
        obtain ⟨_, heq, -⟩ := h
        cases heq

/-- The branch for a condition that holds has a field. -/
theorem yesOf_eq (fields : Value.Entries) : yesOf fields =
    (Value.field? fields "then").elim (.error (.ofSpec (.missing "if.then"))) (listOf "if.then") :=
  walk_eq rfl (fun _ _ _ => by rw [yesOf]) fields

/-- It is not read without that field. -/
theorem then_of_yesOf {fields : Value.Entries} {yes : List Placeholder}
    (h : yesOf fields = .ok yes) : (Value.field? fields "then").isNone = false := by
  rw [yesOf_eq] at h
  cases hfield : Value.field? fields "then" with
  | none =>
    rw [hfield] at h
    cases h
  | some list => rfl

/-- The other branch has a field too. -/
theorem noOf_eq (fields : Value.Entries) : noOf fields =
    (Value.field? fields "else").elim (.ok none) fun found =>
      if found == .null then .ok none else (listOf "if.else" found).map some :=
  walk_eq rfl (fun _ _ _ => by rw [noOf]) fields

/-- A condition with its branches is read from fields. -/
theorem branchOf_eq (v : Value) : branchOf v =
    v.readMapping (.ofSpec (.notAMapping "if")) (fun fields => do
      let some condition := Value.field? fields "cond"
        | throw (.ofSpec (.missing "if.cond"))
      if (Value.field? fields "then").isNone then
        throw (.ofSpec (.missing "if.then"))
      let condition ← Condition.ofValue condition
      let yes ← yesOf fields
      let no ← noOf fields
      pure (.branch condition yes no)) :=
  readMapping_of (fun v => by cases v <;> rfl) v

/-- So it is. -/
theorem branchOf_eq_ok {v : Value} {p : Placeholder} :
    branchOf v = .ok p ↔ ∃ fields given condition yes no, v.bare = .map fields ∧
      Value.field? fields "cond" = some given ∧ Condition.ofValue given = .ok condition ∧
      yesOf fields = .ok yes ∧ noOf fields = .ok no ∧ p = .branch condition yes no := by
  rw [branchOf_eq, readMapping_eq_ok]
  constructor
  · rintro ⟨fields, hbare, h⟩
    -- From what was read to what stands there; all other ways through the reader fail.
    split at h
    next given hgiven =>
      dsimp only at h
      split at h
      next => cases h
      next =>
        obtain ⟨condition, hcondition, h⟩ := bind_eq_ok.mp h
        obtain ⟨yes, hyes, h⟩ := bind_eq_ok.mp h
        obtain ⟨no, hno, h⟩ := bind_eq_ok.mp h
        exact ⟨fields, given, condition, yes, no, hbare, hgiven, hcondition, hyes, hno,
          (pure_eq_ok.mp h).symm⟩
    next => cases h
  · rintro ⟨fields, given, condition, yes, no, hbare, hgiven, hcondition, hyes, hno, rfl⟩
    refine ⟨fields, hbare, ?_⟩
    simp only [hgiven, then_of_yesOf hyes, hcondition, hyes, hno, Bool.false_eq_true, if_false,
      bind, Except.bind, pure, Except.pure]

/-- A placeholder of the kind for branches is read as such. -/
theorem parse_if (value : Value) : parse (.map [(.str "if", value)]) = branchOf value := by
  rw [parse, if_neg (str_ne (by decide)), if_neg (str_ne (by decide)),
    if_neg (str_ne (by decide)), if_neg (str_ne (by decide)), if_pos (beq_self _)]

/-- Placeholders are read from their forms one after another, if each of them is. -/
theorem ofValues_eq_ok {items : List Value} {parts : List Placeholder}
    (h : ∀ item ∈ items, ∀ p, parse item = .ok p ↔ Form item p) :
    ofValues items = .ok parts ↔ List.Forall₂ Form items parts := by
  -- By induction on the items.
  induction items generalizing parts with
  | nil =>
    rw [List.forall₂_nil_left_iff, ofValues]
    exact ⟨fun h => (Except.ok.inj h).symm, fun h => h ▸ rfl⟩
  | cons item rest ih =>
    obtain ⟨hitem, hrest⟩ := List.forall_mem_cons.mp h
    rw [ofValues]
    constructor
    · intro hok
      obtain ⟨p, hp, hok⟩ := bind_eq_ok.mp hok
      obtain ⟨others, hothers, hok⟩ := bind_eq_ok.mp hok
      obtain rfl := pure_eq_ok.mp hok
      exact .cons ((hitem p).mp hp) ((ih hrest).mp hothers)
    · intro hforms
      cases hforms with
      | cons hp hothers =>
        exact bind_eq_ok.mpr ⟨_, (hitem _).mpr hp,
          bind_eq_ok.mpr ⟨_, (ih hrest).mpr hothers, rfl⟩⟩

/-- A list of placeholders is read from their forms, if each of them is. -/
theorem listOf_form {what : String} {v : Value} {parts : List Placeholder}
    (h : ∀ items, v.bare = .list items → ∀ item ∈ items, ∀ p, parse item = .ok p ↔
      Form item p) :
    listOf what v = .ok parts ↔ ∃ items, v.bare = .list items ∧
      List.Forall₂ Form items parts := by
  rw [listOf_eq_ok]
  exact exists_congr fun items => and_congr_right fun hbare => ofValues_eq_ok (h items hbare)

/-- The other branch is read from its forms, if its placeholders are. -/
theorem noOf_form {fields : Value.Entries} {no : Option (List Placeholder)}
    (h : ∀ other, Value.field? fields "else" = some other →
      ∀ items, other.bare = .list items →
      ∀ item ∈ items, ∀ p, parse item = .ok p ↔ Form item p) :
    noOf fields = .ok no ↔ (Value.fieldOrNull fields "else" = .null ∧ no = none) ∨
      ∃ other items parts, Value.field? fields "else" = some other ∧
        other.bare = .list items ∧
        List.Forall₂ Form items parts ∧ no = some parts := by
  rw [noOf_eq, Value.fieldOrNull]
  -- The branch may be left out or be null, which is the same, or be a list.
  cases hfield : Value.field? fields "else" with
  | none =>
    rw [Option.elim_none]
    constructor
    · exact fun hno => .inl ⟨rfl, (Except.ok.inj hno).symm⟩
    · rintro (⟨-, rfl⟩ | ⟨other, items, parts, hnever, -⟩)
      · rfl
      · cases hnever
  | some other =>
    rw [Option.elim_some, Option.getD_some]
    by_cases hnull : (other == .null) = true
    · obtain rfl := eq_null hnull
      rw [if_pos hnull]
      constructor
      · exact fun hno => .inl ⟨rfl, (Except.ok.inj hno).symm⟩
      · rintro (⟨-, rfl⟩ | ⟨found, items, parts, heq, hnever, -⟩)
        · rfl
        · obtain rfl := Option.some.inj heq
          cases hnever
    · rw [if_neg hnull, map_eq_ok]
      constructor
      · rintro ⟨parts, hparts, rfl⟩
        obtain ⟨items, hitems, hforms⟩ := (listOf_form (h other hfield)).mp hparts
        exact .inr ⟨other, items, parts, rfl, hitems, hforms, rfl⟩
      · rintro (⟨rfl, -⟩ | ⟨found, items, parts, heq, hitems, hforms, rfl⟩)
        · exact absurd rfl hnull
        · obtain rfl := Option.some.inj heq
          exact ⟨parts, (listOf_form (h other hfield)).mpr ⟨items, hitems, hforms⟩, rfl⟩

/-! ### Lists in a value -/

/-- In the lists of a value, placeholders are read from their forms. -/
def ReadsLists (v : Value) : Prop :=
  ∀ (list : Value) (items : List Value), sizeOf list ≤ sizeOf v → list.isTame →
    list.bare = .list items → ∀ item ∈ items, ∀ p, parse item = .ok p ↔ Form item p

section

variable {v value : Value} {fields entries : Value.Entries} {p : Placeholder}

/-- The list may be the value itself. -/
theorem ReadsLists.listOf (h : ReadsLists value) (htame : value.isTame) {what : String}
    {parts : List Placeholder} :
    listOf what value = .ok parts ↔ ∃ items, value.bare = .list items ∧
      List.Forall₂ Form items parts :=
  listOf_form fun items => h value items (Nat.le_refl _) htame

/-- It may stand under a field. -/
theorem ReadsLists.field (h : ReadsLists value) (htame : value.isTame)
    (hfields : value.bare = .map fields) (name : String) (found : Value)
    (hfound : Value.field? fields name = some found) :
    ∀ items, found.bare = .list items → ∀ item ∈ items, ∀ p,
      parse item = .ok p ↔ Form item p := fun items =>
  h found items (Nat.le_of_lt (sizeOf_lt_of_mem hfields (mem_of_field? hfound)))
    (Value.isTame_of_field? (Value.isTame_entries htame hfields) hfound)

/-- A condition with branches that is read is what the value is a form of. -/
theorem ReadsLists.form_of_branchOf (h : ReadsLists value) (htame : value.isTame)
    (hshape : v.bare = .map [(.str "if", value)]) (hok : branchOf value = .ok p) : Form v p := by
  obtain ⟨fields, given, condition, yes, no, hfields, hgiven, hcondition, hyes, hno, rfl⟩ :=
    branchOf_eq_ok.mp hok
  have hlists := h.field htame hfields
  have hdecides := condition_form.mp hcondition
  rw [yesOf_eq] at hyes
  cases hthen : Value.field? fields "then" with
  | none =>
    rw [hthen] at hyes
    cases hyes
  | some list =>
    rw [hthen] at hyes
    obtain ⟨items, hitems, hforms⟩ := (listOf_form (hlists "then" list hthen)).mp hyes
    -- The other branch is none, or has forms of its own.
    obtain ⟨hnull, rfl⟩ | ⟨other, others, parts, helse, hothers, hparts, rfl⟩ :=
      (noOf_form (hlists "else")).mp hno
    · exact .branch hshape hfields hgiven hdecides hthen hitems hforms hnull
    · exact .branchElse hshape hfields hgiven hdecides hthen hitems hforms helse hothers hparts

/-- The branch for a condition that holds is read from its forms. -/
theorem ReadsLists.yesOf_of_forms (h : ReadsLists value) (htame : value.isTame)
    (hfields : value.bare = .map fields) {list : Value} {items : List Value}
    {yes : List Placeholder} (hthen : Value.field? fields "then" = some list)
    (hitems : list.bare = .list items) (hforms : List.Forall₂ Form items yes) :
    yesOf fields = .ok yes := by
  rw [yesOf_eq, hthen]
  exact (listOf_form (h.field htame hfields "then" list hthen)).mpr ⟨items, hitems, hforms⟩

/-! ### Scalars and mappings -/

/-- What is no mapping is read as a literal. -/
theorem scalar_form (htame : v.isTame) (hmapping : v.isMapping = false) :
    parse v = .ok p ↔ Form v p := by
  have hnot {fields : Value.Entries} : v.bare ≠ .map fields := fun hbare => by
    rw [Value.isMapping, hbare] at hmapping
    cases hmapping
  rw [parse_of_not_map htame hmapping, ofScalar]
  by_cases hliteral : v.IsLiteral
  · rw [scalarText_of_isLiteral hliteral htame]
    constructor
    · exact fun h => Except.ok.inj h ▸ .literal hliteral
    · intro h
      cases h with
      | literal => rfl
      | inputValue shape | inputPath shape | outputPath shape | concat shape | branch shape
      | branchElse shape => exact absurd shape hnot
  · rw [scalarText_of_not_isLiteral hliteral]
    constructor
    · intro h
      cases h
    · intro h
      cases h with
      | literal h => exact absurd h hliteral
      | inputValue shape | inputPath shape | outputPath shape | concat shape | branch shape
      | branchElse shape => exact absurd shape hnot

/-- Only mappings with one key are read as placeholders. -/
theorem exists_singleton_of_parse (hok : parse (.map entries) = .ok p) :
    ∃ kind value, entries = [(kind, value)] := by
  rcases entries with _ | ⟨⟨kind, value⟩, _ | ⟨second, others⟩⟩
  · rw [parse] at hok <;> simp_all
  · exact ⟨kind, value, rfl⟩
  · rw [parse] at hok <;> simp_all

/-- **What is read from a mapping** is what it is a form of, if this holds of the lists in it. -/
theorem form_of_parse (hbare : v.bare = .map entries)
    (hentries : ∀ entry ∈ entries, entry.2.isTame ∧ ReadsLists entry.2)
    (hok : parse (.map entries) = .ok p) : Form v p := by
  obtain ⟨kind, value, rfl⟩ := exists_singleton_of_parse hok
  obtain ⟨htame, hlists⟩ := hentries _ List.mem_cons_self
  -- One kind after another, in the order of the reader.
  rw [parse] at hok
  split at hok
  next hkind =>
    obtain ⟨name, hname, rfl⟩ := map_eq_ok.mp hok
    obtain ⟨rfl, isName⟩ := nameUnder_eq_ok.mp hname
    exact .inputValue (beq_str.mp hkind ▸ hbare) isName
  split at hok
  next hkind =>
    obtain ⟨name, hname, rfl⟩ := map_eq_ok.mp hok
    obtain ⟨rfl, isName⟩ := nameUnder_eq_ok.mp hname
    exact .inputPath (beq_str.mp hkind ▸ hbare) isName
  split at hok
  next hkind =>
    obtain ⟨name, hname, rfl⟩ := map_eq_ok.mp hok
    obtain ⟨rfl, isName⟩ := nameUnder_eq_ok.mp hname
    exact .outputPath (beq_str.mp hkind ▸ hbare) isName
  split at hok
  next hkind =>
    obtain ⟨parts, hparts, rfl⟩ := map_eq_ok.mp hok
    obtain ⟨items, hitems, hforms⟩ := (hlists.listOf htame).mp hparts
    exact .concat (beq_str.mp hkind ▸ hbare) hitems hforms
  split at hok
  next hkind => exact hlists.form_of_branchOf htame (beq_str.mp hkind ▸ hbare) hok
  next => cases hok

/-- **The forms that are mappings are read**, if those in the lists in them are. -/
theorem parse_of_form (hbare : v.bare = .map entries)
    (hentries : ∀ entry ∈ entries, entry.2.isTame ∧ ReadsLists entry.2) (h : Form v p) :
    parse (.map entries) = .ok p := by
  cases h with
  | literal h => exact absurd h (not_isLiteral_of_map hbare)
  | inputValue shape isName =>
    obtain rfl := Value.map.inj (hbare.symm.trans shape)
    rw [parse, if_pos (beq_self _), nameUnder_eq_ok.mpr ⟨rfl, isName⟩]
    rfl
  | inputPath shape isName =>
    obtain rfl := Value.map.inj (hbare.symm.trans shape)
    rw [parse, if_neg (str_ne (by decide)), if_pos (beq_self _),
      nameUnder_eq_ok.mpr ⟨rfl, isName⟩]
    rfl
  | outputPath shape isName =>
    obtain rfl := Value.map.inj (hbare.symm.trans shape)
    rw [parse, if_neg (str_ne (by decide)), if_neg (str_ne (by decide)), if_pos (beq_self _),
      nameUnder_eq_ok.mpr ⟨rfl, isName⟩]
    rfl
  | concat shape isList forms =>
    obtain rfl := Value.map.inj (hbare.symm.trans shape)
    obtain ⟨htame, hlists⟩ := hentries _ List.mem_cons_self
    rw [parse, if_neg (str_ne (by decide)), if_neg (str_ne (by decide)),
      if_neg (str_ne (by decide)), if_pos (beq_self _),
      (hlists.listOf htame).mpr ⟨_, isList, forms⟩]
    rfl
  | branch shape isMapping cond decides onYes isList forms onNo =>
    obtain rfl := Value.map.inj (hbare.symm.trans shape)
    obtain ⟨htame, hlists⟩ := hentries _ List.mem_cons_self
    have hyes := hlists.yesOf_of_forms htame isMapping onYes isList forms
    have hno := (noOf_form (hlists.field htame isMapping "else")).mpr (.inl ⟨onNo, rfl⟩)
    rw [parse_if]
    exact branchOf_eq_ok.mpr
      ⟨_, _, _, _, none, isMapping, cond, condition_form.mpr decides, hyes, hno, rfl⟩
  | branchElse shape isMapping cond decides onYes isList forms onNo isOther otherForms =>
    obtain rfl := Value.map.inj (hbare.symm.trans shape)
    obtain ⟨htame, hlists⟩ := hentries _ List.mem_cons_self
    have hyes := hlists.yesOf_of_forms htame isMapping onYes isList forms
    have hno := (noOf_form (hlists.field htame isMapping "else")).mpr
      (.inr ⟨_, _, _, onNo, isOther, otherForms, rfl⟩)
    rw [parse_if]
    exact branchOf_eq_ok.mpr
      ⟨_, _, _, _, some _, isMapping, cond, condition_form.mpr decides, hyes, hno, rfl⟩

end

end Placeholder

/-- The values in a mapping with one key, or in a list, are smaller than what they stand in. -/
theorem sizeOf_lt_of_item {v item : Value} {items : List Value} (hbare : v.bare = .list items)
    (h : item ∈ items) : sizeOf item < sizeOf v := by
  have hitem := List.sizeOf_lt_of_mem h
  have hv := sizeOf_bare_le v
  rw [hbare, Value.list.sizeOf_spec] at hv
  omega

/-- **A placeholder is read from its forms**, as long as the value can be shown and its keys can be
    listed.  The induction is on the size of the value, since branches are looked up in it. -/
theorem placeholder_form (v : Value) (htame : v.isTame) (p : Placeholder) :
    Placeholder.parse v = .ok p ↔ Placeholder.Form v p := by
  cases hmapping : v.isMapping with
  | false => exact Placeholder.scalar_form htame hmapping
  | true =>
    obtain ⟨entries, hbare⟩ : ∃ entries, v.bare = .map entries := by
      unfold Value.isMapping at hmapping
      split at hmapping
      next entries hbare => exact ⟨entries, hbare⟩
      next => cases hmapping
    -- what stands deeper, in a list under the only key or under a branch, is read from its forms
    have hentries : ∀ entry ∈ entries, entry.2.isTame ∧ Placeholder.ReadsLists entry.2 := by
      rintro ⟨key, value⟩ hentry
      refine ⟨(Value.isTame_entries htame hbare _ hentry).2,
        fun list items hle hlist hitems item hitem p => ?_⟩
      have hsmaller : sizeOf item < sizeOf v := calc
        sizeOf item < sizeOf list := sizeOf_lt_of_item hitems hitem
        _ ≤ sizeOf value := hle
        _ < sizeOf v := sizeOf_lt_of_mem hbare hentry
      exact placeholder_form item (Value.isTame_items hlist hitems item hitem) p
    rw [Placeholder.parse_of_map hbare]
    exact ⟨Placeholder.form_of_parse hbare hentries, Placeholder.parse_of_form hbare hentries⟩
termination_by sizeOf v

/-! ### Arguments -/

/-- **An argument is read from its forms**, as long as the value can be shown and its keys can be
    listed. -/
theorem argument_form {v : Value} (htame : v.isTame) {a : Argument} :
    Argument.parse v = .ok a ↔ Argument.Form v a := by
  unfold Argument.parse
  -- Literals go first, as in the reader, and no mapping is one.
  by_cases hliteral : v.IsLiteral
  · rw [scalarText_of_isLiteral hliteral htame]
    have hnot {fields : Value.Entries} (hbare : v.bare = .map fields) : False :=
      not_isLiteral_of_map hbare hliteral
    constructor
    · exact fun h => Except.ok.inj h ▸ .literal hliteral
    · intro h
      cases h with
      | literal => rfl
      | graphInput shape => exact (hnot shape).elim
      | taskOutput shape => exact (hnot shape).elim
  · rw [scalarText_of_not_isLiteral hliteral]
    show (if v.isShown then _ else _) = _ ↔ _
    rw [if_pos (Value.isShown_of_isTame htame)]
    constructor
    · intro h
      split at h
      next kind found hbare =>
        unfold Argument.ofKind at h
        split at h
        next fields hfields =>
          split at h
          next hkind =>
            obtain ⟨input, hinput, h⟩ := bind_eq_ok.mp h
            obtain rfl := pure_eq_ok.mp h
            obtain ⟨hfield, isName⟩ := requiredName_eq_ok.mp hinput
            exact .graphInput (beq_str.mp hkind ▸ hbare) hfields hfield isName
          split at h
          next hkind =>
            obtain ⟨task, htask, h⟩ := bind_eq_ok.mp h
            obtain ⟨output, houtput, h⟩ := bind_eq_ok.mp h
            obtain rfl := pure_eq_ok.mp h
            obtain ⟨htask, isTask⟩ := requiredName_eq_ok.mp htask
            obtain ⟨houtput, isOutput⟩ := requiredName_eq_ok.mp houtput
            exact .taskOutput (beq_str.mp hkind ▸ hbare) hfields htask isTask houtput isOutput
          · cases h
        next => cases h
      next => cases h
      next => cases h
    · intro h
      cases h with
      | literal h => exact absurd h hliteral
      | graphInput shape isMapping inputName isName =>
        simp only [shape, isMapping, Argument.ofKind]
        rw [if_pos (beq_self _), requiredName_eq_ok.mpr ⟨inputName, isName⟩]
        rfl
      | taskOutput shape isMapping taskId isTask outputName isOutput =>
        simp only [shape, isMapping, Argument.ofKind]
        rw [if_neg (str_ne (by decide)), if_pos (beq_self _),
          requiredName_eq_ok.mpr ⟨taskId, isTask⟩,
            requiredName_eq_ok.mpr ⟨outputName, isOutput⟩]
        rfl

end PipelineCompiler
