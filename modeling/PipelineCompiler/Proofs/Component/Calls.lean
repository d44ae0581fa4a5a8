import PipelineCompiler.Proofs.Component.Forms

namespace PipelineCompiler

/-!
# The calls that placeholders take

A placeholder inside another one takes three more calls: one for the placeholder itself, one for the
list that it is in and one that goes through the list.  So a value is read as what it is the form of
as long as it is not nested too deep, and escapes from the loader when it is.

* `Placeholder.calls` — the calls that are open at once while a placeholder is read;
* `callsFor_of_form` — they depend on the placeholder alone, not on the value it is read from;
* `forms_exact` — the grammars are exact within the limit on calls, and nothing is read beyond it;
* `nestedConcat_escapes` — a form of a placeholder that is too deep.
-/

namespace Placeholder

/-! ### Calls of a placeholder -/

mutual

/-- How many calls are open at once at most while a placeholder is read from a form of it. -/
def calls : Placeholder → Nat
  | .concat parts => 3 + callsOfAll parts
  | .branch _ yes no => 3 + max (callsOfAll yes) (callsOfElse no)
  | _ => 1

/-- The same inside a list of placeholders. -/
def callsOfAll : List Placeholder → Nat
  | [] => 0
  | p :: rest => max p.calls (callsOfAll rest)

/-- The same inside a branch that may be absent. -/
def callsOfElse : Option (List Placeholder) → Nat
  | none => 0
  | some no => callsOfAll no

end

/-! ### Calls for a value -/

/-- What follows a step that does not fail counts. -/
theorem callsThen_ok {α : Type} {step : Except Failure α} {a : α} (h : step = .ok a)
    (calls others : Nat) : callsThen step calls others = max calls others := by
  rw [h]
  rfl

/-- A mapping takes its calls wherever it stands. -/
theorem callsFor_of_map {v : Value} {entries : Value.Entries} (h : v.bare = .map entries) :
    callsFor v = callsFor (.map entries) := by
  -- By induction on the places around the mapping: each is passed through without a call of its
  -- own.
  induction v using Value.bare.induct with
  | case1 place v ih =>
    have hinner : v.bare = .map entries := h
    have hmap : v.isMapping = true := by rw [Value.isMapping, hinner]
    calc callsFor (.placed place v) = callsFor v := by rw [callsFor, if_pos hmap]
      _ = callsFor (.map entries) := ih hinner
  | case2 v hbare =>
    cases v with
    | placed place inner => exact absurd rfl (hbare place inner)
    | map fields =>
      obtain rfl := Value.map.inj h
      rfl
    | _ => cases h

/-- Other values take the calls of scalars. -/
theorem callsFor_of_not_map {v : Value} (h : v.isMapping = false) :
    callsFor v = callsForScalar v := by
  cases v with
  | map fields => cases h
  | placed place inner =>
    have hinner : inner.isMapping = false := h
    rw [callsFor, if_neg (Bool.eq_false_iff.mp hinner)]
  | _ => rfl

/-- A list takes its calls wherever it stands. -/
theorem callsForList_of_list {v : Value} {items : List Value} (h : v.bare = .list items) :
    callsForList v = 2 + callsForItems items := by
  induction v using Value.bare.induct with
  | case1 place v ih =>
    rw [callsForList]
    exact ih h
  | case2 v hbare =>
    cases v with
    | placed place inner => exact absurd rfl (hbare place inner)
    | list others =>
      obtain rfl := Value.list.inj h
      rw [callsForList]
    | _ => cases h

/-- The branch for a condition that holds takes the calls of its list. -/
theorem callsForYes_eq (fields : Value.Entries) :
    callsForYes fields = (Value.field? fields "then").elim 0 callsForList :=
  walk_eq rfl (fun _ _ _ => by rw [callsForYes]) fields

/-- So does the other branch. -/
theorem callsForNo_eq (fields : Value.Entries) :
    callsForNo fields =
      (Value.field? fields "else").elim 0 fun found =>
        if found == .null then 0 else callsForList found :=
  walk_eq rfl (fun _ _ _ => by rw [callsForNo]) fields

/-- A branch that is absent or null takes none. -/
theorem callsForNo_of_null {fields : Value.Entries}
    (h : Value.fieldOrNull fields "else" = .null) : callsForNo fields = 0 := by
  rw [callsForNo_eq]
  cases helse : Value.field? fields "else" with
  | none => rfl
  | some found =>
    rw [Value.fieldOrNull, helse, Option.getD_some] at h
    rw [Option.elim_some, h]
    rfl

/-- A condition with its branches that are read takes the calls of both. -/
theorem callsForBranch_of_ok {v given : Value} {fields : Value.Entries} {condition : Condition}
    {yes : List Placeholder} (h : v.bare = .map fields)
    (hgiven : Value.field? fields "cond" = some given)
    (hcondition : Condition.ofValue given = .ok condition) (hyes : yesOf fields = .ok yes) :
    callsForBranch v = max (callsForYes fields) (callsForNo fields) := by
  -- By induction on the places around the mapping.
  induction v using Value.bare.induct with
  | case1 place v ih =>
    rw [callsForBranch]
    exact ih h
  | case2 v hbare =>
    cases v with
    | placed place inner => exact absurd rfl (hbare place inner)
    | map others =>
      obtain rfl := Value.map.inj h
      rw [callsForBranch]
      simp only [hgiven, then_of_yesOf hyes, Bool.false_eq_true, if_false]
      rw [callsThen_ok hcondition, callsThen_ok hyes, Nat.zero_max]
    | _ => cases h

/-! ### Calls for a form -/

/-- A literal takes one call. -/
theorem callsForScalar_of_isLiteral {v : Value} (h : v.IsLiteral) (htame : v.isTame) :
    callsForScalar v = 1 := by
  rw [callsForScalar, scalarText_of_isLiteral h htame]

/-- A list of forms takes the calls of what they are forms of, if each of them does. -/
theorem callsForList_of_forms {v : Value} {items : List Value} {parts : List Placeholder}
    (htame : v.isTame) (hbare : v.bare = .list items) (forms : List.Forall₂ Form items parts)
    (h : ∀ item ∈ items, ∀ p, Form item p → callsFor item = p.calls) :
    callsForList v = 2 + callsOfAll parts := by
  have htames := Value.isTame_items htame hbare
  rw [callsForList_of_list hbare]
  clear hbare htame
  congr 1
  -- By induction on the forms; the list takes as many calls as the deepest of its items.
  induction forms with
  | nil => rfl
  | @cons item p rest others hform _ ih =>
    obtain ⟨hitem, hrest⟩ := List.forall_mem_cons.mp h
    obtain ⟨htame, htames⟩ := List.forall_mem_cons.mp htames
    rw [callsForItems, callsThen_ok ((placeholder_form item htame p).mpr hform), callsOfAll,
      hitem p hform, ih hrest htames]

/-- **The calls for a form are those of the placeholder** that is read from it.  The induction is on
    the size of the value, as for `placeholder_form`. -/
theorem callsFor_of_form (v : Value) (htame : v.isTame) {p : Placeholder} (h : Form v p) :
    callsFor v = p.calls := by
  -- Items and fields are smaller than the value that holds them, so the law holds of them.
  have hread : ∀ {list : Value} {items : List Value} {parts : List Placeholder}, list.isTame →
      sizeOf list < sizeOf v → list.bare = .list items → List.Forall₂ Form items parts →
      callsForList list = 2 + callsOfAll parts := by
    intro list items parts hlist hsmaller hitems forms
    refine callsForList_of_forms hlist hitems forms fun item hitem p hform => ?_
    have : sizeOf item < sizeOf v := Nat.lt_trans (sizeOf_lt_of_item hitems hitem) hsmaller
    exact callsFor_of_form item (Value.isTame_items hlist hitems item hitem) hform
  have hfield : ∀ {kind value list : Value} {fields : Value.Entries} {name : String},
      v.bare = .map [(kind, value)] → value.bare = .map fields →
      Value.field? fields name = some list → list.isTame ∧ sizeOf list < sizeOf v := by
    intro kind value list fields name hbare hfields hlist
    have hvalue : value.isTame := (Value.isTame_entries htame hbare _ List.mem_cons_self).2
    exact ⟨Value.isTame_of_field? (Value.isTame_entries hvalue hfields) hlist, calc
      sizeOf list < sizeOf value := sizeOf_lt_of_mem hfields (mem_of_field? hlist)
      _ < sizeOf v := sizeOf_lt_of_mem hbare List.mem_cons_self⟩
  have hbranch : ∀ {value given list : Value} {fields : Value.Entries} {condition : Condition}
      {items : List Value} {yes : List Placeholder}, v.bare = .map [(.str "if", value)] →
      value.bare = .map fields → Value.field? fields "cond" = some given →
      Condition.Form given condition → Value.field? fields "then" = some list →
      list.bare = .list items → List.Forall₂ Form items yes →
      callsFor v = 1 + max (2 + callsOfAll yes) (callsForNo fields) := by
    intro value given list fields condition items yes shape isMapping cond decides
      onYes isList forms
    obtain ⟨hlist, hsmaller⟩ := hfield shape isMapping onYes
    have hyes : yesOf fields = .ok yes := by
      rw [yesOf_eq, onYes]
      exact (listOf_form fun others hothers item hitem p =>
        placeholder_form item (Value.isTame_items hlist hothers item hitem) p).mpr
        ⟨items, isList, forms⟩
    rw [callsFor_of_map shape, callsFor, if_neg (str_ne (by decide)), if_pos (beq_self _),
      callsForBranch_of_ok isMapping cond (condition_form.mpr decides) hyes, callsForYes_eq, onYes,
      Option.elim_some, hread hlist hsmaller isList forms]
  -- One case for each form.  Only `concat` and branches go on into parts, and take calls of their
  -- own.
  cases h with
  | literal isLiteral =>
    have hscalar : v.isMapping = false := by
      unfold Value.isMapping
      split
      next hbare => exact absurd isLiteral (not_isLiteral_of_map hbare)
      next => rfl
    rw [callsFor_of_not_map hscalar, callsForScalar_of_isLiteral isLiteral htame]
    rfl
  | inputValue shape | inputPath shape | outputPath shape =>
    rw [callsFor_of_map shape, callsFor, if_neg (str_ne (by decide)),
      if_neg (str_ne (by decide))]
    rfl
  | concat shape isList forms =>
    have hlist := (Value.isTame_entries htame shape _ List.mem_cons_self).2
    rw [callsFor_of_map shape, callsFor, if_pos (beq_self _),
      hread hlist (sizeOf_lt_of_mem shape List.mem_cons_self) isList forms, calls]
    omega
  | @branch _ _ _ _ fields _ _ _ shape isMapping cond decides onYes isList forms onNo =>
    rw [hbranch shape isMapping cond decides onYes isList forms, callsForNo_of_null onNo, calls,
      callsOfElse]
    omega
  | @branchElse _ _ _ _ other fields _ _ _ _ _ shape isMapping cond decides onYes isList forms onNo
      isOther otherForms =>
    obtain ⟨hother, hsmaller⟩ := hfield shape isMapping onNo
    have hnull : ¬ (other == .null) = true := fun hnull => by
      rw [eq_null hnull] at isOther
      cases isOther
    have hno := callsForNo_eq fields
    rw [onNo, Option.elim_some, if_neg hnull, hread hother hsmaller isOther otherForms] at hno
    rw [hbranch shape isMapping cond decides onYes isList forms, hno, calls, callsOfElse]
    omega
termination_by sizeOf v

end Placeholder

/-! ### Exact grammars -/

/-- **The grammars are exact.**  Every value of JSON is read as the placeholder and as the argument
    that it is a form of, unless more than `limit` calls are open at once.  All others have an
    error, a fault of a component or of a placeholder.  What takes more calls escapes. -/
theorem forms_exact (limit : Nat) {text : String} {v : Value} (h : Json.read text = .ok v) :
    (∀ p, Placeholder.ofValueWithin limit v = .ok p ↔ Placeholder.Form v p ∧
      p.calls ≤ limit) ∧
    (Placeholder.callsFor v ≤ limit →
      FailsOnly Failure.IsTyped (Placeholder.ofValueWithin limit v)) ∧
    (limit < Placeholder.callsFor v → Placeholder.ofValueWithin limit v = .error .illTyped) ∧
    (∀ a, Argument.ofValueWithin limit v = .ok a ↔
      Argument.Form v a ∧ Argument.callsFor v ≤ limit) ∧
    (Argument.callsFor v ≤ limit →
      FailsOnly Failure.IsTyped (Argument.ofValueWithin limit v)) ∧
    (limit < Argument.callsFor v → Argument.ofValueWithin limit v = .error .illTyped) := by
  have htame := Json.isTame_of_read h
  have htyped : IsOfLoader Failure.IsTyped :=
    ⟨fun _ => ⟨_, rfl, .inl rfl⟩, fun _ => ⟨_, rfl, .inr rfl⟩⟩
  -- The three statements about placeholders and the three about arguments come from the same
  -- bounded reading: a result or a fault within the limit, and an escape beyond it.
  refine ⟨fun p => ?_, fun hle e he => ?_, fun hlt => ?_, fun a => ?_, fun hle e he => ?_,
    fun hlt => ?_⟩
  · rw [Placeholder.ofValueWithin, withinCalls_eq_ok, placeholder_form v htame p]
    exact and_congr_right fun hform => by rw [Placeholder.callsFor_of_form v htame hform]
  · rw [Placeholder.ofValueWithin, withinCalls, if_pos hle] at he
    exact failsAs_placeholder htyped v (.inl htame) e he
  · exact withinCalls_eq_error.mpr (.inr ⟨hlt, rfl⟩)
  · rw [Argument.ofValueWithin, withinCalls_eq_ok, argument_form htame]
  · rw [Argument.ofValueWithin, withinCalls, if_pos hle] at he
    exact failsAs_argument htyped v (.inl htame) e he
  · exact withinCalls_eq_error.mpr (.inr ⟨hlt, rfl⟩)

/-- A condition with a branch, as JSON. -/
def branchingText : String :=
  "\x7b\"if\":\x7b\"cond\":\x7b\"isPresent\":\"x\"\x7d," ++
    "\"then\":[\x7b\"concat\":[\"-\",\x7b\"inputValue\":\"x\"\x7d]\x7d]\x7d\x7d"

/-- The same as a value. -/
def branchingValue : Value :=
  .map [(.str "if", .map [
    (.str "cond", .map [(.str "isPresent", .str "x")]),
    (.str "then", .list [
      .map [(.str "concat", .list [.str "-", .map [(.str "inputValue", .str "x")]])]])])]

/-- It is read as such a placeholder, and has an error as an argument. -/
theorem branchingValue_forms :
    Json.read branchingText = .ok branchingValue ∧
    Placeholder.ofValue branchingValue =
      .ok (.branch (.isPresent "x") [.concat [.literal "-", .inputValue "x"]] none) ∧
    FailsOnly Failure.IsTyped (Placeholder.ofValue branchingValue) ∧
    (∀ a, Argument.ofValue branchingValue ≠ .ok a) ∧
    FailsOnly Failure.IsTyped (Argument.ofValue branchingValue) := by
  have hread : Json.read branchingText = .ok branchingValue := by cbv
  obtain ⟨hplaceholder, hfails, -, hargument, hfails', -⟩ := forms_exact callLimit hread
  refine ⟨hread, (hplaceholder _).mpr ⟨?_, by decide⟩, hfails (by decide), fun a ha => ?_,
    hfails' (by decide)⟩
  · refine .branch rfl rfl rfl (.isPresent rfl (by decide)) rfl rfl ?_ rfl
    refine .cons (.concat rfl rfl ?_) .nil
    exact .cons (.literal trivial) (.cons (.inputValue rfl (by decide)) .nil)
  · cases ((hargument a).mp ha).1 with
    | literal h => exact h
    | graphInput shape => simp [branchingValue, Value.bare] at shape
    | taskOutput shape => simp [branchingValue, Value.bare] at shape

/-! ### Forms that are too deep -/

/-- A value inside so many concatenations. -/
def nestedConcat (inner : Value) : Nat → Value
  | 0 => inner
  | depth + 1 => .map [(.str "concat", .list [nestedConcat inner depth])]

/-- A placeholder inside so many concatenations. -/
def nestedParts (inner : Placeholder) : Nat → Placeholder
  | 0 => inner
  | depth + 1 => .concat [nestedParts inner depth]

/-- A form inside concatenations is the form of the placeholder inside them. -/
theorem nestedConcat_form {inner : Value} {p : Placeholder} (h : Placeholder.Form inner p)
    (depth : Nat) : Placeholder.Form (nestedConcat inner depth) (nestedParts p depth) := by
  induction depth with
  | zero => exact h
  | succ depth ih => exact .concat rfl rfl (.cons ih .nil)

/-- Every concatenation takes three calls. -/
theorem callsFor_nestedConcat (inner : Value) (depth : Nat) :
    Placeholder.callsFor (nestedConcat inner depth) =
      3 * depth + Placeholder.callsFor inner := by
  induction depth with
  | zero => rw [nestedConcat, Nat.mul_zero, Nat.zero_add]
  | succ depth ih =>
    -- The list with one item takes what the item takes.
    have hitems : Placeholder.callsForItems [nestedConcat inner depth] =
        3 * depth + Placeholder.callsFor inner := by
      rw [Placeholder.callsForItems, Placeholder.callsForItems, ih, callsThen,
        Nat.max_zero, ite_self]
    rw [nestedConcat, Placeholder.callsFor, if_pos (beq_self _), Placeholder.callsForList, hitems]
    omega

/-- Too many of them are not read, whatever is inside. -/
theorem nestedConcat_tooDeep (inner : Value) {depth : Nat} (h : callLimit < 3 * depth) :
    Placeholder.ofValue (nestedConcat inner depth) = .error .illTyped := by
  have hcalls : callLimit < Placeholder.callsFor (nestedConcat inner depth) := by
    rw [callsFor_nestedConcat]
    omega
  rw [Placeholder.ofValue, Placeholder.ofValueWithin]
  exact withinCalls_eq_error.mpr (.inr ⟨hcalls, rfl⟩)

/-- A text inside 340 concatenations is the form of a placeholder, but is not read.  Null inside
    them is no form, and no error of the loader says so. -/
theorem nestedConcat_escapes :
    Placeholder.Form (nestedConcat (.str "x") 340) (nestedParts (.literal "x") 340) ∧
    Placeholder.ofValue (nestedConcat (.str "x") 340) = .error .illTyped ∧
    Placeholder.ofValue (nestedConcat .null 340) = .error .illTyped := by
  have hform : Placeholder.Form (.str "x") (.literal "x") := .literal trivial
  have hdeep : callLimit < 3 * 340 := by decide
  exact ⟨nestedConcat_form hform 340, nestedConcat_tooDeep _ hdeep,
    nestedConcat_tooDeep _ hdeep⟩

end PipelineCompiler
