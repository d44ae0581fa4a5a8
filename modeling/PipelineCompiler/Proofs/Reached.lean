import PipelineCompiler.Proofs.CommandLine
import PipelineCompiler.Proofs.Json.Alike
import PipelineCompiler.Proofs.Launch

namespace PipelineCompiler

/-!
# Placeholders that are reached

Which placeholders count in a command line is decided by conditions.  This is said here without the
expansions, and what the command line lists and contains is what such placeholders ask for.

* `Placeholder.Reaches`, `Container.Reaches` — a placeholder stands where no condition is against
  it;
* `expand_reaches` — the tokens of what is reached are within those of the whole, and so are its
  uses;
* `expand_uses` — there are no other uses;
* `CommandLine.Serves`, `commandLine_serves` — the same for command lines;
* `Launch.texts`, `Launch.FieldsAlike.mem_texts` — the strings of a container, which its document
  determines.

`expand_reaches` is an induction on the way to the placeholder, `expand_uses` one on the placeholder
that is expanded.
-/

/-! ### What is reached -/

/-- The placeholder `inner` is among those that are expanded for another one: in an item of a text
    that is joined, or in the branch that a condition chooses. -/
inductive Placeholder.Reaches (arguments : Keyed Argument) (inner : Placeholder) :
    Placeholder → Prop
  | here : Reaches arguments inner inner
  | concat {items : List Placeholder} {item : Placeholder} (mem : item ∈ items)
      (within : Reaches arguments inner item) : Reaches arguments inner (.concat items)
  | yes {condition : Condition} {yes : List Placeholder} {no : Option (List Placeholder)}
      {item : Placeholder} (holds : condition.holds arguments = .ok true) (mem : item ∈ yes)
      (within : Reaches arguments inner item) : Reaches arguments inner (.branch condition yes no)
  | no {condition : Condition} {yes no : List Placeholder} {item : Placeholder}
      (fails : condition.holds arguments = .ok false) (mem : item ∈ no)
      (within : Reaches arguments inner item) :
      Reaches arguments inner (.branch condition yes (some no))

/-- A placeholder is reached in the command, in the arguments or in the environment of a
    container. -/
def Container.Reaches (arguments : Keyed Argument) (inner : Placeholder) (container : Container) :
    Prop :=
  (∃ items, container.command = some items ∧ ∃ item ∈ items,
    inner.Reaches arguments item) ∨
  (∃ items, container.args = some items ∧ ∃ item ∈ items, inner.Reaches arguments item) ∨
  ∃ entry ∈ container.env, inner.Reaches arguments entry.2

/-- A text occurs in one of some texts. -/
def Occurs (text : String) (texts : List String) : Prop :=
  ∃ whole ∈ texts, text.toList <:+: whole.toList

/-- Texts that are joined occur in the whole. -/
theorem infix_join {text : String} {texts : List String} (h : text ∈ texts) :
    text.toList <:+: (String.join texts).toList := by
  induction texts with
  | nil => cases h
  | cons first rest ih =>
    rw [String.toList_join, List.flatMap_cons]
    rcases List.mem_cons.mp h with rfl | h
    · exact (List.prefix_append _ _).isInfix
    · exact ((String.toList_join ▸ ih h).trans (List.suffix_append _ _).isInfix)

/-! ### Expansions -/

/-- The uses of an expansion are uses of another, and its tokens occur in the tokens of it. -/
structure Expansion.Within (e whole : Expansion) : Prop where
  uses : ∀ use ∈ e.uses, use ∈ whole.uses
  tokens : ∀ token ∈ e.tokens, Occurs token whole.tokens

namespace Expansion

variable {a b e : Expansion}

/-- An expansion is within itself. -/
theorem Within.refl (e : Expansion) : e.Within e :=
  ⟨fun _ h => h, fun token h => ⟨token, h, List.infix_rfl⟩⟩

/-- What is within a part is within the whole. -/
theorem Within.trans (h : a.Within b) (h' : b.Within e) : a.Within e where
  uses use huse := h'.uses use (h.uses use huse)
  tokens token htoken := by
    obtain ⟨middle, hmiddle, hinfix⟩ := h.tokens token htoken
    obtain ⟨whole, hwhole, hinfix'⟩ := h'.tokens middle hmiddle
    exact ⟨whole, hwhole, hinfix.trans hinfix'⟩

/-- The first of two expansions one behind another. -/
theorem within_append_left (a b : Expansion) : a.Within (a ++ b) :=
  ⟨fun _ h => List.mem_append_left _ h,
    fun token h => ⟨token, List.mem_append_left _ h, List.infix_rfl⟩⟩

/-- The second of them. -/
theorem within_append_right (a b : Expansion) : b.Within (a ++ b) :=
  ⟨fun _ h => List.mem_append_right _ h,
    fun token h => ⟨token, List.mem_append_right _ h, List.infix_rfl⟩⟩

/-- All tokens as one. -/
theorem within_joined (e : Expansion) : e.Within e.joined :=
  ⟨fun _ h => h, fun _ h => ⟨_, List.mem_cons_self, infix_join h⟩⟩

end Expansion

section Expand

variable {x : Expander}

/-- The expansion of an item is within that of all. -/
theorem expandAll_item {items : List Placeholder} {item : Placeholder} (hitem : item ∈ items)
    {e : Expansion} (h : Placeholder.expandAll x items = .ok e) :
    ∃ part, item.expand x = .ok part ∧ part.Within e := by
  induction items generalizing e with
  | nil => cases hitem
  | cons first rest ih =>
    rw [Placeholder.expandAll] at h
    obtain ⟨head, hhead, h⟩ := bind_eq_ok.mp h
    obtain ⟨tail, htail, h⟩ := bind_eq_ok.mp h
    obtain rfl := pure_eq_ok.mp h
    rcases List.mem_cons.mp hitem with rfl | hitem
    · exact ⟨head, hhead, Expansion.within_append_left head tail⟩
    · obtain ⟨part, hpart, hwithin⟩ := ih hitem htail
      exact ⟨part, hpart, hwithin.trans (Expansion.within_append_right head tail)⟩

/-- **What is reached is expanded**, and its expansion is within that of the whole. -/
theorem expand_reaches {p inner : Placeholder} (hreaches : inner.Reaches x.arguments p)
    {e : Expansion} (h : p.expand x = .ok e) :
    ∃ part, inner.expand x = .ok part ∧ part.Within e := by
  -- By induction on the way to the placeholder: every step goes into an expansion.
  induction hreaches generalizing e with
  | here => exact ⟨e, h, .refl e⟩
  | concat mem _ ih =>
    rw [Placeholder.expand] at h
    obtain ⟨all, hall, rfl⟩ := map_eq_ok.mp h
    obtain ⟨item, hitem, hwithin⟩ := expandAll_item mem hall
    obtain ⟨part, hpart, hinner⟩ := ih hitem
    exact ⟨part, hpart, (hinner.trans hwithin).trans (Expansion.within_joined all)⟩
  | yes holds mem _ ih =>
    rw [Placeholder.expand, holds] at h
    obtain ⟨item, hitem, hwithin⟩ := expandAll_item mem h
    obtain ⟨part, hpart, hinner⟩ := ih hitem
    exact ⟨part, hpart, hinner.trans hwithin⟩
  | no fails mem _ ih =>
    rw [Placeholder.expand, fails] at h
    obtain ⟨item, hitem, hwithin⟩ := expandAll_item mem h
    obtain ⟨part, hpart, hinner⟩ := ih hitem
    exact ⟨part, hpart, hinner.trans hwithin⟩

/-- A placeholder that stands for an input asks for a use of it. -/
inductive Placeholder.AsksFor (x : Expander) : Placeholder → Use → Prop
  | value {input : String} {use : Use} (mem : use ∈ (x.inputValue input).uses) :
      AsksFor x (.inputValue input) use
  | path (input : String) : AsksFor x (.inputPath input) (.byPath input)

mutual

/-- **All uses are asked for** by placeholders that are reached. -/
theorem expand_uses : ∀ (p : Placeholder) {e : Expansion}, p.expand x = .ok e →
    ∀ use ∈ e.uses, ∃ inner : Placeholder, inner.Reaches x.arguments p ∧ inner.AsksFor x use
  | .literal text, e, h, use, huse => by
    rw [Placeholder.expand] at h
    obtain rfl := Except.ok.inj h
    cases huse
  | .inputValue input, e, h, use, huse => by
    rw [Placeholder.expand] at h
    obtain ⟨_, -, h⟩ := bind_eq_ok.mp h
    obtain rfl := pure_eq_ok.mp h
    exact ⟨_, .here, .value huse⟩
  | .inputPath input, e, h, use, huse => by
    rw [Placeholder.expand] at h
    obtain ⟨_, -, h⟩ := bind_eq_ok.mp h
    obtain rfl := pure_eq_ok.mp h
    obtain rfl := List.mem_singleton.mp huse
    exact ⟨_, .here, .path input⟩
  -- An output is no use of an input.
  | .outputPath output, e, h, use, huse => by
    rw [Placeholder.expand, Expander.outputPath] at h
    split at h
    · obtain rfl := Except.ok.inj h
      cases huse
    · cases h
  | .concat items, e, h, use, huse => by
    rw [Placeholder.expand] at h
    obtain ⟨all, hall, rfl⟩ := map_eq_ok.mp h
    obtain ⟨item, hitem, inner, hreaches, hasks⟩ := expandAll_uses items hall use huse
    exact ⟨inner, .concat hitem hreaches, hasks⟩
  -- What is used in a branch is reached through the condition that holds.
  | .branch condition yes no, e, h, use, huse => by
    rw [Placeholder.expand] at h
    obtain ⟨holds, hholds, h⟩ := bind_eq_ok.mp h
    cases holds with
    | true =>
      obtain ⟨item, hitem, inner, hreaches, hasks⟩ := expandAll_uses yes h use huse
      exact ⟨inner, .yes hholds hitem hreaches, hasks⟩
    | false =>
      obtain ⟨items, rfl, item, hitem, inner, hreaches, hasks⟩ := expandElse_uses no h use huse
      exact ⟨inner, .no hholds hitem hreaches, hasks⟩

/-- The same for expansions one behind another. -/
theorem expandAll_uses : ∀ (items : List Placeholder) {e : Expansion},
    Placeholder.expandAll x items = .ok e → ∀ use ∈ e.uses,
      ∃ item ∈ items, ∃ inner : Placeholder,
        inner.Reaches x.arguments item ∧ inner.AsksFor x use
  | [], e, h, use, huse => by
    rw [Placeholder.expandAll] at h
    obtain rfl := Except.ok.inj h
    cases huse
  | item :: rest, e, h, use, huse => by
    rw [Placeholder.expandAll] at h
    obtain ⟨head, hhead, h⟩ := bind_eq_ok.mp h
    obtain ⟨tail, htail, h⟩ := bind_eq_ok.mp h
    obtain rfl := pure_eq_ok.mp h
    rcases List.mem_append.mp huse with huse | huse
    · exact ⟨item, List.mem_cons_self, expand_uses item hhead use huse⟩
    · obtain ⟨other, hother, hinner⟩ := expandAll_uses rest htail use huse
      exact ⟨other, List.mem_cons_of_mem _ hother, hinner⟩

/-- The same for a branch that may be absent. -/
theorem expandElse_uses : ∀ (no : Option (List Placeholder)) {e : Expansion},
    Placeholder.expandElse x no = .ok e → ∀ use ∈ e.uses,
      ∃ items, no = some items ∧ ∃ item ∈ items, ∃ inner : Placeholder,
        inner.Reaches x.arguments item ∧ inner.AsksFor x use
  | none, e, h, use, huse => by
    rw [Placeholder.expandElse] at h
    obtain rfl := Except.ok.inj h
    cases huse
  | some items, e, h, use, huse => by
    rw [Placeholder.expandElse] at h
    exact ⟨items, rfl, expandAll_uses items h use huse⟩

end

end Expand

/-! ### Command lines -/

namespace CommandLine

/-- All strings of a command line. -/
def texts (line : CommandLine) : List String :=
  line.command.getD [] ++ line.args.getD [] ++ Keyed.values line.env

/-- A use is listed. -/
def HasUse (line : CommandLine) : Use → Prop
  | .byValue input => input ∈ line.valueInputs
  | .byPath input => input ∈ line.pathInputs

end CommandLine

/-- The uses that a command line lists are those of its parts. -/
theorem hasUse_line {container : Container} {p : Expander.Parts} {use : Use} :
    (p.line container).HasUse use ↔ use ∈ p.uses := by
  cases use with
  | byValue input => exact mem_valueInputs
  | byPath input => exact mem_pathInputs

/-- The expansion of an environment variable is the token of its value. -/
theorem expandEnv_entry {x : Expander} {entries : Keyed Placeholder} {env : Keyed Expansion}
    (h : x.expandEnv entries = .ok env) :
    List.Forall₂ (fun entry e => entry.2.expand x = .ok e.2) entries env := by
  induction entries generalizing env with
  | nil =>
    obtain rfl := Except.ok.inj h
    exact .nil
  | cons entry rest ih =>
    obtain ⟨name, value⟩ := entry
    rw [Expander.expandEnv] at h
    obtain ⟨first, hfirst, h⟩ := bind_eq_ok.mp h
    obtain ⟨others, hothers, h⟩ := bind_eq_ok.mp h
    obtain rfl := pure_eq_ok.mp h
    exact .cons hfirst (ih hothers)

/-- What a command line has to do with the placeholders that are reached: it lists what they ask
    for and nothing else, and it contains their tokens. -/
structure CommandLine.Serves (x : Expander) (container : Container) (line : CommandLine) :
    Prop where
  asked : ∀ use, line.HasUse use →
    ∃ inner : Placeholder, container.Reaches x.arguments inner ∧ inner.AsksFor x use
  reached : ∀ inner, container.Reaches x.arguments inner → ∃ e, inner.expand x = .ok e ∧
    (∀ use ∈ e.uses, line.HasUse use) ∧ ∀ token ∈ e.tokens, Occurs token line.texts

/-- **What a command line serves.** -/
theorem commandLine_serves {x : Expander} {container : Container} {line : CommandLine}
    (h : x.commandLine container = .ok line) : line.Serves x container := by
  rw [commandLine_eq] at h
  obtain ⟨p, hp, rfl⟩ := map_eq_ok.mp h
  unfold Expander.parts at hp
  obtain ⟨command, hcommand, hp⟩ := bind_eq_ok.mp hp
  obtain ⟨args, hargs, hp⟩ := bind_eq_ok.mp hp
  obtain ⟨env, henv, hp⟩ := bind_eq_ok.mp hp
  obtain rfl := pure_eq_ok.mp hp
  have hentries := expandEnv_entry henv
  constructor
  · intro use huse
    rw [hasUse_line, Expander.Parts.uses, List.mem_append, List.mem_append] at huse
    rcases huse with (huse | huse) | huse
    · obtain ⟨items, hitems, item, hitem, inner, hinner, hasks⟩ :=
        expandElse_uses _ hcommand use huse
      exact ⟨inner, .inl ⟨items, hitems, item, hitem, hinner⟩, hasks⟩
    · obtain ⟨items, hitems, item, hitem, inner, hinner, hasks⟩ :=
        expandElse_uses _ hargs use huse
      exact ⟨inner, .inr (.inl ⟨items, hitems, item, hitem, hinner⟩), hasks⟩
    · obtain ⟨e, he, huse⟩ := List.mem_flatMap.mp huse
      obtain ⟨entry, hentry, hexpand⟩ := exists_left_of_mem hentries he
      obtain ⟨inner, hinner, hasks⟩ := expand_uses entry.2 hexpand use huse
      exact ⟨inner, .inr (.inr ⟨entry, hentry, hinner⟩), hasks⟩
  · rintro inner (⟨items, hitems, item, hitem, hinner⟩ | ⟨items, hitems, item,
      hitem, hinner⟩ |
      ⟨entry, hentry, hinner⟩)
    · rw [hitems, Placeholder.expandElse] at hcommand
      obtain ⟨whole, hwhole, hitem⟩ := expandAll_item hitem hcommand
      obtain ⟨e, he, hwithin⟩ := expand_reaches hinner hwhole
      have hwithin := hwithin.trans hitem
      refine ⟨e, he, fun use huse => hasUse_line.mpr ?_, fun token htoken => ?_⟩
      · exact List.mem_append_left _ (List.mem_append_left _ (hwithin.uses use huse))
      · obtain ⟨text, htext, hinfix⟩ := hwithin.tokens token htoken
        refine ⟨text, List.mem_append_left _ (List.mem_append_left _ ?_), hinfix⟩
        simpa [Expander.Parts.line, hitems] using htext
    · rw [hitems, Placeholder.expandElse] at hargs
      obtain ⟨whole, hwhole, hitem⟩ := expandAll_item hitem hargs
      obtain ⟨e, he, hwithin⟩ := expand_reaches hinner hwhole
      have hwithin := hwithin.trans hitem
      refine ⟨e, he, fun use huse => hasUse_line.mpr ?_, fun token htoken => ?_⟩
      · exact List.mem_append_left _ (List.mem_append_right _ (hwithin.uses use huse))
      · obtain ⟨text, htext, hinfix⟩ := hwithin.tokens token htoken
        refine ⟨text, List.mem_append_left _ (List.mem_append_right _ ?_), hinfix⟩
        simpa [Expander.Parts.line, hitems] using htext
    · obtain ⟨whole, hmem, hwhole⟩ := exists_right_of_mem hentries hentry
      obtain ⟨e, he, hwithin⟩ := expand_reaches hinner hwhole
      refine ⟨e, he, fun use huse => hasUse_line.mpr ?_, fun token htoken => ?_⟩
      · exact List.mem_append_right _ (List.mem_flatMap.mpr ⟨whole, hmem,
          hwithin.uses use huse⟩)
      · -- the value of a variable is one string, which is joined from the tokens
        obtain ⟨text, htext, hinfix⟩ := hwithin.tokens token htoken
        refine ⟨String.join whole.2.tokens, List.mem_append_right _ ?_,
          hinfix.trans (infix_join htext)⟩
        exact List.mem_map_of_mem (f := fun entry : String × String => entry.2)
          (List.mem_map_of_mem (f := fun entry : String × Expansion =>
            (entry.1, String.join entry.2.tokens)) hmem)

/-! ### Inputs and outputs that are reached -/

/-- The value of an input is read as a parameter, and not from the file of an artifact. -/
def Expander.ReadsParameter (x : Expander) (input : String) : Prop :=
  ∀ artifactValue parameters, x.accessors.artifactValue? = some artifactValue →
    x.parameters = some parameters → input ∈ parameters

/-- The value of an input that is read as a parameter. -/
theorem inputValue_of_readsParameter {x : Expander} {input : String} (h : x.ReadsParameter input) :
    x.inputValue input =
      { tokens := [x.accessors.parameterValue input], uses := [.byValue input] } := by
  unfold Expander.inputValue
  split
  next artifactValue parameters hvalue hparameters =>
    exact if_pos (h _ _ hvalue hparameters)
  next => rfl

/-- The value of an input that is read from the file of an artifact. -/
theorem inputValue_of_not_readsParameter {x : Expander} {input : String}
    (h : ¬ x.ReadsParameter input) : ∃ artifactValue,
      x.accessors.artifactValue? = some artifactValue ∧
      x.inputValue input = { tokens := [artifactValue input], uses := [.byPath input] } := by
  simp only [Expander.ReadsParameter, not_forall] at h
  obtain ⟨artifactValue, parameters, hvalue, hparameters, hmem⟩ := h
  refine ⟨artifactValue, hvalue, ?_⟩
  unfold Expander.inputValue
  rw [hvalue, hparameters]
  exact if_neg hmem

namespace CommandLine.Serves

variable {x : Expander} {container : Container} {line : CommandLine} {input output : String}

/-- The value of an input is reached: it is listed, and its token occurs. -/
theorem value (h : line.Serves x container)
    (hreaches : container.Reaches x.arguments (.inputValue input)) :
    (∀ use ∈ (x.inputValue input).uses, line.HasUse use) ∧
      ∀ token ∈ (x.inputValue input).tokens, Occurs token line.texts := by
  obtain ⟨e, he, huses, htokens⟩ := h.reached _ hreaches
  rw [Placeholder.expand] at he
  obtain ⟨_, -, he⟩ := bind_eq_ok.mp he
  obtain rfl := pure_eq_ok.mp he
  exact ⟨huses, htokens⟩

/-- **An input is listed as a parameter** when its value is reached and read as a parameter. -/
theorem mem_valueInputs (h : line.Serves x container) : input ∈ line.valueInputs ↔
    container.Reaches x.arguments (.inputValue input) ∧ x.ReadsParameter input := by
  constructor
  · intro hmem
    obtain ⟨inner, hreaches, hasks⟩ := h.asked (.byValue input) hmem
    -- Only values ask for parameters, and only where they read one.
    cases hasks with
    | @value other _ huse =>
      by_cases hreads : x.ReadsParameter other
      · rw [inputValue_of_readsParameter hreads] at huse
        obtain rfl := Use.byValue.inj (List.mem_singleton.mp huse)
        exact ⟨hreaches, hreads⟩
      · obtain ⟨_, -, hvalue⟩ := inputValue_of_not_readsParameter hreads
        rw [hvalue] at huse
        cases List.mem_singleton.mp huse
  · rintro ⟨hreaches, hreads⟩
    refine (h.value hreaches).1 (.byValue input) ?_
    rw [inputValue_of_readsParameter hreads]
    exact List.mem_cons_self

/-- **An input is listed as a file** when its path is reached, or its value, and that is read from
    the file of an artifact. -/
theorem mem_pathInputs (h : line.Serves x container) : input ∈ line.pathInputs ↔
    container.Reaches x.arguments (.inputPath input) ∨
      container.Reaches x.arguments (.inputValue input) ∧ ¬ x.ReadsParameter input := by
  -- A value that does not read a parameter is passed as a file, so an input is a file for one of
  -- two reasons.
  constructor
  · intro hmem
    obtain ⟨inner, hreaches, hasks⟩ := h.asked (.byPath input) hmem
    cases hasks with
    | @value other _ huse =>
      by_cases hreads : x.ReadsParameter other
      · rw [inputValue_of_readsParameter hreads] at huse
        cases List.mem_singleton.mp huse
      · obtain ⟨_, -, hvalue⟩ := inputValue_of_not_readsParameter hreads
        rw [hvalue] at huse
        obtain rfl := Use.byPath.inj (List.mem_singleton.mp huse)
        exact .inr ⟨hreaches, hreads⟩
    | path => exact .inl hreaches
  · rintro (hreaches | ⟨hreaches, hreads⟩)
    · obtain ⟨e, he, huses, -⟩ := h.reached _ hreaches
      rw [Placeholder.expand] at he
      obtain ⟨_, -, he⟩ := bind_eq_ok.mp he
      obtain rfl := pure_eq_ok.mp he
      exact huses (.byPath input) List.mem_cons_self
    · obtain ⟨_, -, hvalue⟩ := inputValue_of_not_readsParameter hreads
      refine (h.value hreaches).1 (.byPath input) ?_
      rw [hvalue]
      exact List.mem_cons_self

/-- The accessor of a parameter occurs. -/
theorem occurs_parameter (h : line.Serves x container)
    (hreaches : container.Reaches x.arguments (.inputValue input))
    (hreads : x.ReadsParameter input) : Occurs (x.accessors.parameterValue input) line.texts := by
  refine (h.value hreaches).2 _ ?_
  rw [inputValue_of_readsParameter hreads]
  exact List.mem_cons_self

/-- The accessor of the value of an artifact occurs. -/
theorem occurs_artifactValue (h : line.Serves x container)
    (hreaches : container.Reaches x.arguments (.inputValue input))
    (hreads : ¬ x.ReadsParameter input) : ∃ artifactValue,
      x.accessors.artifactValue? = some artifactValue ∧
        Occurs (artifactValue input) line.texts := by
  obtain ⟨artifactValue, hartifact, hvalue⟩ := inputValue_of_not_readsParameter hreads
  refine ⟨artifactValue, hartifact, (h.value hreaches).2 _ ?_⟩
  rw [hvalue]
  exact List.mem_cons_self

/-- The accessor of the path of an artifact occurs. -/
theorem occurs_path (h : line.Serves x container)
    (hreaches : container.Reaches x.arguments (.inputPath input)) :
    Occurs (x.accessors.artifactPath input) line.texts := by
  obtain ⟨e, he, -, htokens⟩ := h.reached _ hreaches
  rw [Placeholder.expand] at he
  obtain ⟨_, -, he⟩ := bind_eq_ok.mp he
  obtain rfl := pure_eq_ok.mp he
  exact htokens _ List.mem_cons_self

/-- **An output that is reached is declared.** -/
theorem declared (h : line.Serves x container)
    (hreaches : container.Reaches x.arguments (.outputPath output)) :
    output ∈ x.component.outputNames := by
  obtain ⟨e, he, -⟩ := h.reached _ hreaches
  rw [Placeholder.expand, Expander.outputPath] at he
  split at he
  next hmem => exact hmem
  next => cases he

end CommandLine.Serves

/-! ### Strings of containers in documents -/

namespace Launch

/-- All strings of a container: its command, its arguments and the values of its variables. -/
def texts (l : Launch) : List String :=
  l.command.getD [] ++ l.args.getD [] ++ Keyed.values l.env

/-- The command in the document of a container. -/
theorem command_of_mem {l : Launch} {v : Value} (h : ("command", v) ∈ l.fields) :
    ∃ tokens, l.command = some tokens ∧ v = .ofTexts tokens := by
  simp only [fields, List.mem_append, List.mem_cons, List.not_mem_nil, or_false, List.mem_map,
    Option.mem_toList] at h
  rcases h with ((h | ⟨tokens, htokens, h⟩) | ⟨tokens, -, h⟩) | h
  · exact absurd (Prod.mk.inj h).1 (by decide)
  · obtain ⟨-, rfl⟩ := Prod.mk.inj h
    exact ⟨tokens, htokens, rfl⟩
  · exact absurd (Prod.mk.inj h).1 (by decide)
  · split at h
    · cases h
    · exact absurd (Prod.mk.inj (List.mem_singleton.mp h)).1 (by decide)

/-- The arguments in the document of a container. -/
theorem args_of_mem {l : Launch} {v : Value} (h : ("args", v) ∈ l.fields) :
    ∃ tokens, l.args = some tokens ∧ v = .ofTexts tokens := by
  simp only [fields, List.mem_append, List.mem_cons, List.not_mem_nil, or_false, List.mem_map,
    Option.mem_toList] at h
  rcases h with ((h | ⟨tokens, -, h⟩) | ⟨tokens, htokens, h⟩) | h
  · exact absurd (Prod.mk.inj h).1 (by decide)
  · exact absurd (Prod.mk.inj h).1 (by decide)
  · obtain ⟨-, rfl⟩ := Prod.mk.inj h
    exact ⟨tokens, htokens, rfl⟩
  · split at h
    · cases h
    · exact absurd (Prod.mk.inj (List.mem_singleton.mp h)).1 (by decide)

/-- The environment in the document of a container. -/
theorem env_of_mem {l : Launch} {v : Value} (h : ("env", v) ∈ l.fields) :
    v = .list (l.env.map envEntry) := by
  simp only [fields, List.mem_append, List.mem_cons, List.not_mem_nil, or_false, List.mem_map,
    Option.mem_toList] at h
  rcases h with ((h | ⟨tokens, -, h⟩) | ⟨tokens, -, h⟩) | h
  · exact absurd (Prod.mk.inj h).1 (by decide)
  · exact absurd (Prod.mk.inj h).1 (by decide)
  · exact absurd (Prod.mk.inj h).1 (by decide)
  · split at h
    · cases h
    · exact (Prod.mk.inj (List.mem_singleton.mp h)).2

/-- Lists of texts that are alike are equal. -/
theorem eq_of_alike_ofTexts {xs ys : List String} (h : Alike (.ofTexts xs) (.ofTexts ys)) :
    xs = ys := by
  have hmap := map_eq_of_alike (f := Value.str) (g := id) (fun _ _ => alike_str) h
  rwa [List.map_id, List.map_id] at hmap

/-- Variables that are alike have one value. -/
theorem value_eq_of_alike {a b : String × String} (h : Alike (envEntry a) (envEntry b)) :
    a.2 = b.2 := by
  have hvalue : Alike (.str a.2) (.str b.2) :=
    alike_field h (k := "value") (by simp) (by simp)
  exact alike_str hvalue

/-- Every field of a container has an alike one among those of another. -/
def FieldsAlike (l l' : Launch) : Prop :=
  ∀ k v, (k, v) ∈ l.fields → ∃ w, (k, w) ∈ l'.fields ∧ Alike v w

/-- **Alike documents have the same strings.** -/
theorem FieldsAlike.mem_texts {l l' : Launch} (h : FieldsAlike l l') {text : String}
    (htext : text ∈ l.texts) : text ∈ l'.texts := by
  rw [texts, List.mem_append, List.mem_append] at htext ⊢
  -- A text of a launch stands in its command, its arguments or its environment, and each is a field
  -- of its own.
  rcases htext with (htext | htext) | htext
  · cases hcommand : l.command with
    | none => simp [hcommand] at htext
    | some tokens =>
      obtain ⟨v, hv, halike⟩ := h "command" (.ofTexts tokens) (by simp [fields, hcommand])
      obtain ⟨tokens', htokens', rfl⟩ := command_of_mem hv
      obtain rfl := eq_of_alike_ofTexts halike
      rw [hcommand] at htext
      exact .inl (.inl (htokens' ▸ htext))
  · cases hargs : l.args with
    | none => simp [hargs] at htext
    | some tokens =>
      obtain ⟨v, hv, halike⟩ := h "args" (.ofTexts tokens) (by simp [fields, hargs])
      obtain ⟨tokens', htokens', rfl⟩ := args_of_mem hv
      obtain rfl := eq_of_alike_ofTexts halike
      rw [hargs] at htext
      exact .inl (.inr (htokens' ▸ htext))
  · have hne : l.env.isEmpty = false := by
      cases henv : l.env with
      | nil => simp [henv, Keyed.values] at htext
      | cons => rfl
    obtain ⟨v, hv, halike⟩ := h "env" (.list (l.env.map envEntry)) (by simp [fields, hne])
    rw [env_of_mem hv] at halike
    have hvalues : Keyed.values l.env = Keyed.values l'.env :=
      map_eq_of_alike (fun _ _ => value_eq_of_alike) halike
    exact .inr (hvalues ▸ htext)

end Launch

/-- What occurs in some texts occurs in any that include them. -/
theorem Occurs.mono {texts texts' : List String} {text : String} (h : Occurs text texts)
    (hsub : ∀ whole ∈ texts, whole ∈ texts') : Occurs text texts' := by
  obtain ⟨whole, hwhole, hinfix⟩ := h
  exact ⟨whole, hsub whole hwhole, hinfix⟩

end PipelineCompiler
