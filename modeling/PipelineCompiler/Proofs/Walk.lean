import Mathlib
import PipelineCompiler.Proofs.CommandLine

namespace PipelineCompiler

/-!
# The walk along a command line

What a command line comes to, said without the order in which it is expanded.  A walk along its
items decides every condition that it meets and goes on with the items of the branch that is
selected, so that nothing in the other branch is ever looked at.

* `lower_eq_self` — texts without capital letters are in lower case;
* `isTrueText_eq` — a text stands for truth when it reads `true`, in letters of either case;
* `Condition.selects` — the branch that a condition selects;
* `Leaf`, `Piece`, `Placeholder.pieces` — items without parts, and the items of the selected
  branches;
* `Step`, `Placeholder.steps` — the conditions and leaves that a walk meets, in order;
* `Expander.refusal?` — why there is no command line that goes through a step;
* `Expander.reference` — the command line that a walk describes;
* `expand_eq_judge`, `commandLine_eq_judge` — an expansion is what the walk describes, or fails at
  the first step that is refused;
* `commandLine_reference` — the same for components.
-/

/-! ### Texts that stand for truth -/

/-- Of all runs of capital letters only that of ASCII leads to letters of `true`. -/
theorem lowerRuns_high : ∀ run ∈ Text.lowerRuns.toList, run = (0x41, 0x5A, 1, 32) ∨
    0x80 ≤ run.1 ∧ (run = (0x212A, 0x212A, 1, -8383) ∨
      (0x80 : Int) ≤ run.1 + run.2.2.2) := by
  decide +kernel

/-- The capital letters of ASCII are those between two numbers. -/
theorem isUpper_iff (c : Char) : c.isUpper = true ↔ 0x41 ≤ c.toNat ∧ c.toNat ≤ 0x5A := by
  simp [Char.isUpper, UInt32.le_iff_toNat_le]

/-- The lower case of a character is that in ASCII, or neither the character nor its lower case is a
    letter of `true`. -/
theorem lowerChar_cases (c : Char) : Text.lowerChar c = c.toLower ∨
    c.toLower = c ∧ 0x80 ≤ c.toNat ∧
      (Text.lowerChar c).toNat ∉ [0x74, 0x72, 0x75, 0x65] := by
  -- The table of runs decides.  Outside of ASCII only the Kelvin sign comes near, and its lower
  -- case is no letter of `true`.
  unfold Text.lowerChar
  dsimp only
  rw [← Array.find?_toList]
  split
  next run hrun =>
    have hbounds := List.find?_some hrun
    simp only [Bool.and_eq_true, decide_eq_true_eq] at hbounds
    obtain ⟨⟨hlow, hhigh⟩, -⟩ := hbounds
    rcases lowerRuns_high run (List.mem_of_find?_eq_some hrun) with rfl | ⟨hfirst, htarget⟩
    · left
      rw [Char.toLower_eq_of_isUpper ((isUpper_iff c).mpr ⟨hlow, hhigh⟩)]
      rfl
    · right
      have hcapital : ¬ c.isUpper = true := by
        rw [isUpper_iff]
        omega
      refine ⟨Char.toLower_eq_of_not_isUpper hcapital, le_trans hfirst hlow, ?_⟩
      rw [Char.toNat_ofNat]
      split
      · rcases htarget with rfl | htarget
        · have hc : c.toNat = 0x212A := le_antisymm hhigh hlow
          rw [hc]
          decide
        · simp only [List.mem_cons, List.not_mem_nil, or_false]
          omega
      · decide
  next hnone =>
    left
    have hfirst := List.find?_eq_none.mp hnone (0x41, 0x5A, 1, 32) (by decide +kernel)
    have hcapital : ¬ c.isUpper = true := by
      rw [isUpper_iff]
      simpa [Nat.mod_one] using hfirst
    exact (Char.toLower_eq_of_not_isUpper hcapital).symm

/-- The characters of ASCII that are no capitals. -/
def isSmallAscii (c : Char) : Bool := c.toNat < 0x80 && !c.isUpper

/-- Such a character is its own lower case. -/
theorem lowerChar_eq_self {c : Char} (h : isSmallAscii c = true) : Text.lowerChar c = c := by
  simp only [isSmallAscii, Bool.and_eq_true, decide_eq_true_eq, Bool.not_eq_true'] at h
  have hlower := (lowerChar_cases c).resolve_right fun hhigh => by omega
  rw [hlower, Char.toLower_eq_of_not_isUpper (by rw [h.2]; exact Bool.false_ne_true)]

/-- Such characters are in lower case, whatever they follow. -/
theorem lowerFrom_eq_self (within : Bool) (cs : List Char) (h : cs.all isSmallAscii = true) :
    Text.lowerFrom within cs = cs := by
  induction cs generalizing within with
  | nil => rfl
  | cons x rest ih =>
    obtain ⟨hx, hrest⟩ := Bool.and_eq_true_iff.mp (List.all_cons ▸ h)
    have hne : ∀ y, isSmallAscii y = false → (x == y) = false := fun y hy =>
      beq_eq_false_iff_ne.mpr fun heq => Bool.false_ne_true (hy.symm.trans (heq ▸ hx))
    rw [Text.lowerFrom, hne '\u0130' (by decide), hne 'Σ' (by decide), lowerChar_eq_self hx,
      ih _ hrest]
    rfl

/-- **Texts of ASCII without capitals** are in lower case. -/
theorem lower_eq_self (cs : List Char) (h : cs.all isSmallAscii = true) :
    Text.lower (String.ofList cs) = String.ofList cs := by
  rw [Text.lower, String.toList_ofList, lowerFrom_eq_self false cs h]

/-- A character has a letter of `true` as its lower case if it has it in ASCII. -/
theorem lowerChar_eq_iff {c letter : Char} (h : letter ∈ ['t', 'r', 'u', 'e']) :
    Text.lowerChar c = letter ↔ c.toLower = letter := by
  have hletter : letter.toNat ∈ [0x74, 0x72, 0x75, 0x65] :=
    List.mem_map_of_mem (f := Char.toNat) h
  rcases lowerChar_cases c with hsame | ⟨hself, hhigh, hother⟩
  · rw [hsame]
  · have hlower : Text.lowerChar c ≠ letter := fun heq => hother (heq ▸ hletter)
    have hhere : c ≠ letter := by
      rintro rfl
      simp only [List.mem_cons, List.not_mem_nil, or_false] at hletter
      omega
    rw [hself]
    exact iff_of_false hlower hhere

/-- Characters have letters of `true` as their lower case if they have them in ASCII: neither what
    a dotted capital I becomes nor a final sigma is such a letter. -/
theorem lowerFrom_eq_iff {letters : List Char}
    (h : ∀ letter ∈ letters, letter ∈ ['t', 'r', 'u', 'e'])
    (within : Bool) (chars : List Char) :
    Text.lowerFrom within chars = letters ↔ chars.map Char.toLower = letters := by
  -- By induction on the characters.  The two special cases, a dotted I and a sigma, never give a
  -- letter of `true`.
  induction chars generalizing letters within with
  | nil => rfl
  | cons c rest ih =>
    cases letters with
    | nil =>
      rw [Text.lowerFrom]
      split
      · simp
      · split
        · simp
        · simp
    | cons letter letters =>
      obtain ⟨hletter, hletters⟩ := List.forall_mem_cons.mp h
      rw [Text.lowerFrom, List.map_cons, List.cons_eq_cons]
      split
      next hdotted =>
        obtain rfl : c = '\u0130' := eq_of_beq hdotted
        refine iff_of_false (fun heq => ?_) fun heq => ?_
        · obtain rfl := (List.cons.inj heq).1
          exact absurd hletter (by decide)
        · obtain rfl := heq.1
          exact absurd hletter (by decide)
      next =>
        split
        next hsigma =>
          obtain rfl : c = 'Σ' := eq_of_beq (Bool.and_eq_true_iff.mp hsigma).1
          refine iff_of_false (fun heq => ?_) fun heq => ?_
          · obtain rfl := (List.cons.inj heq).1
            exact absurd hletter (by decide)
          · obtain rfl := heq.1
            exact absurd hletter (by decide)
        next =>
          rw [List.singleton_append, List.cons_eq_cons, lowerChar_eq_iff hletter, ih hletters]

/-- **A text stands for truth** when it reads `true`, in letters of either case. -/
theorem isTrueText_eq (s : String) : isTrueText s = (s.toLower == "true") := by
  have hlower : Text.lower s = "true" ↔ s.toLower = "true" := by
    rw [← String.toList_inj, ← String.toList_inj, Text.lower, String.toList_ofList,
      String.toLower, String.toList_map]
    exact lowerFrom_eq_iff (fun _ h => h) false s.toList
  rw [isTrueText, Bool.eq_iff_iff, beq_iff_eq, beq_iff_eq]
  exact hlower

/-! ### Walking along the items -/

/-- The branch that a condition selects.  An input that is bound to no literal selects the second
    one, as if it was not bound, until the condition is refused. -/
def Condition.selects (arguments : Keyed Argument) : Condition → Bool
  | .bool b => b
  | .text s => s.toLower == "true"
  | .isPresent input => Keyed.has arguments input
  | .inputValue input =>
    match Keyed.find? arguments input with
    | some (.literal s) => s.toLower == "true"
    | _ => false

/-- A placeholder without parts. -/
inductive Leaf where
  | literal (text : String)
  | inputValue (input : String)
  | inputPath (input : String)
  | outputPath (output : String)

/-- An item of a command line from which the branches are gone. -/
inductive Piece where
  | leaf (leaf : Leaf)
  | concat (pieces : List Piece)

/-- What a walk meets. -/
inductive Step where
  | condition (condition : Condition)
  | leaf (leaf : Leaf)

section Walks

variable (arguments : Keyed Argument)

mutual

/-- The pieces that a placeholder comes to, with the items of the selected branch in the place of a
    branch. -/
def Placeholder.pieces : Placeholder → List Piece
  | .literal text => [.leaf (.literal text)]
  | .inputValue input => [.leaf (.inputValue input)]
  | .inputPath input => [.leaf (.inputPath input)]
  | .outputPath output => [.leaf (.outputPath output)]
  | .concat items => [.concat (piecesOf items)]
  | .branch condition yes no =>
    if condition.selects arguments then piecesOf yes else piecesOfElse no

/-- The same for several placeholders. -/
def Placeholder.piecesOf : List Placeholder → List Piece
  | [] => []
  | item :: rest => item.pieces ++ piecesOf rest

/-- The same for a branch that may be absent. -/
def Placeholder.piecesOfElse : Option (List Placeholder) → List Piece
  | none => []
  | some items => piecesOf items

end

mutual

/-- The conditions and leaves that a walk through a placeholder meets, a condition before the branch
    that it selects. -/
def Placeholder.steps : Placeholder → List Step
  | .literal text => [.leaf (.literal text)]
  | .inputValue input => [.leaf (.inputValue input)]
  | .inputPath input => [.leaf (.inputPath input)]
  | .outputPath output => [.leaf (.outputPath output)]
  | .concat items => stepsOf items
  | .branch condition yes no =>
    .condition condition ::
      if condition.selects arguments then stepsOf yes else stepsOfElse no

/-- The same for several placeholders. -/
def Placeholder.stepsOf : List Placeholder → List Step
  | [] => []
  | item :: rest => item.steps ++ stepsOf rest

/-- The same for a branch that may be absent. -/
def Placeholder.stepsOfElse : Option (List Placeholder) → List Step
  | none => []
  | some items => stepsOf items

end

end Walks

/-- The walk along a container: the command, the arguments and the values of the environment. -/
def Container.walk (container : Container) (arguments : Keyed Argument) : List Step :=
  Placeholder.stepsOfElse arguments container.command ++
    Placeholder.stepsOfElse arguments container.args ++
      container.env.flatMap fun entry => entry.2.steps arguments

/-! ### What a walk describes -/

namespace Expander

/-- Why there is no command line that goes through a step: a condition tests an input that is bound
    to something else than a literal, or a leaf names what is not declared. -/
def refusal? (x : Expander) : Step → Option Cause
  | .condition (.inputValue input) =>
    match Keyed.find? x.arguments input with
    | none | some (.literal _) => none
    | some _ => some (.runtimeCondition input)
  | .condition _ | .leaf (.literal _) => none
  | .leaf (.inputValue input) | .leaf (.inputPath input) =>
    if input ∈ x.component.inputNames then none else some (.undeclaredInput input)
  | .leaf (.outputPath output) =>
    if output ∈ x.component.outputNames then none else some (.undeclaredOutput output)

/-- How the value of an input is read from its file: the target can do that, the inputs that are
    parameters are known, and this is none of them. -/
def fileAccess? (x : Expander) (input : String) : Option (String → String) :=
  x.accessors.artifactValue?.filter fun _ => x.parameters.any fun parameters => input ∉ parameters

/-- The token of a leaf. -/
def leafToken (x : Expander) : Leaf → String
  | .literal text => text
  | .inputValue input => (x.fileAccess? input).getD x.accessors.parameterValue input
  | .inputPath input => x.accessors.artifactPath input
  | .outputPath output => x.accessors.outputPath output

mutual

/-- The token of a piece, which is one, whatever it is put together from. -/
def token (x : Expander) : Piece → String
  | .leaf leaf => x.leafToken leaf
  | .concat pieces => String.join (x.tokens pieces)

/-- The tokens of pieces. -/
def tokens (x : Expander) : List Piece → List String
  | [] => []
  | piece :: rest => x.token piece :: x.tokens rest

end

/-- The input that a step uses as a parameter. -/
def valueInput? (x : Expander) : Step → Option String
  | .leaf (.inputValue input) => if (x.fileAccess? input).isSome then none else some input
  | _ => none

/-- The input that a step uses as a file. -/
def pathInput? (x : Expander) : Step → Option String
  | .leaf (.inputValue input) => if (x.fileAccess? input).isSome then some input else none
  | .leaf (.inputPath input) => some input
  | _ => none

/-- The command line that the walk along a container describes. -/
def reference (x : Expander) (container : Container) : CommandLine :=
  let walk := container.walk x.arguments
  { command := container.command.map fun items =>
      x.tokens (Placeholder.piecesOf x.arguments items)
    args := container.args.map fun items => x.tokens (Placeholder.piecesOf x.arguments items)
    env := Keyed.mapValues (fun value => String.join (x.tokens (value.pieces x.arguments)))
      container.env
    valueInputs := (walk.filterMap x.valueInput?).eraseDups
    pathInputs := (walk.filterMap x.pathInput?).eraseDups }

/-- A result, unless one of the steps to it is refused. -/
def judge {α : Type} (x : Expander) (steps : List Step) (a : α) : Except Failure α :=
  match steps.findSome? x.refusal? with
  | none => .ok a
  | some cause => .error (.ofCause cause)

end Expander

variable {x : Expander}

/-- Two computations, one after the other, are judged by the steps of both. -/
theorem judge_bind {α β : Type} (before : List Step) {after : List Step} {a : α} {b : β}
    {f : α → Except Failure β} (h : f a = x.judge after b) :
    (x.judge before a >>= f) = x.judge (before ++ after) b := by
  unfold Expander.judge at h ⊢
  rw [List.findSome?_append]
  cases before.findSome? x.refusal? with
  | none => exact h
  | some cause => rfl

/-- A function of a result is judged by the same steps. -/
theorem judge_map {α β : Type} {steps : List Step} {a : α} (f : α → β) :
    (x.judge steps a).map f = x.judge steps (f a) := by
  unfold Expander.judge
  cases steps.findSome? x.refusal? with
  | none => rfl
  | some cause => rfl

/-- A single step. -/
theorem judge_singleton {α : Type} (step : Step) (a : α) :
    x.judge [step] a = match x.refusal? step with
      | none => .ok a
      | some cause => .error (.ofCause cause) := by
  unfold Expander.judge
  rw [List.findSome?_cons]
  cases x.refusal? step with
  | none => rfl
  | some cause => rfl

/-- The use that a step makes of an input. -/
def Expander.use? (x : Expander) (step : Step) : Option Use :=
  ((x.valueInput? step).map .byValue).or ((x.pathInput? step).map .byPath)

/-- The expansion that pieces and the steps to them describe. -/
def Expander.described (x : Expander) (pieces : List Piece) (steps : List Step) : Expansion :=
  { tokens := x.tokens pieces, uses := steps.filterMap x.use? }

/-- Tokens of pieces one behind another. -/
theorem tokens_append (pieces others : List Piece) :
    x.tokens (pieces ++ others) = x.tokens pieces ++ x.tokens others := by
  induction pieces with
  | nil => rfl
  | cons piece rest ih => rw [List.cons_append, Expander.tokens, Expander.tokens,
      ih, List.cons_append]

/-- An expansion behind another one is described by the pieces and steps of both. -/
theorem described_append (pieces others : List Piece) (steps further : List Step) :
    x.described pieces steps ++ x.described others further =
      x.described (pieces ++ others) (steps ++ further) := by
  show Expansion.append _ _ = _
  simp only [Expansion.append, Expander.described, tokens_append, List.filterMap_append]

/-- A condition is decided as it selects, unless it is refused. -/
theorem holds_eq_judge (condition : Condition) :
    condition.holds x.arguments =
      x.judge [.condition condition] (condition.selects x.arguments) := by
  rw [judge_singleton]
  -- Only a text that is no truth value, and an input without a literal, can be refused.
  cases condition with
  | bool b => rfl
  | text s =>
    rw [Condition.holds, isTrueText_eq]
    rfl
  | isPresent input => rfl
  | inputValue input =>
    rw [Condition.holds, Condition.selects, Expander.refusal?]
    cases Keyed.find? x.arguments input with
    | none => rfl
    | some argument =>
      cases argument with
      | literal s =>
        dsimp only
        rw [isTrueText_eq]
      | graphInput input type => rfl
      | taskOutput source => rfl

/-- The value of an input is read from its file where there is access to it. -/
theorem inputValue_eq (input : String) : x.inputValue input =
    match x.fileAccess? input with
    | some access => { tokens := [access input], uses := [.byPath input] }
    | none => { tokens := [x.accessors.parameterValue input], uses := [.byValue input] } := by
  -- A file is read only where the target has a way to do so and the input is listed for it.
  obtain ⟨component, arguments, ⟨parameterValue, artifactPath, outputPath, artifactValue?⟩,
    parameters?⟩ := x
  cases artifactValue? with
  | none => rfl
  | some artifactValue =>
    cases parameters? with
    | none => rfl
    | some parameters =>
      by_cases hmem : input ∈ parameters
      · simp [Expander.inputValue, Expander.fileAccess?, hmem]
      · simp [Expander.inputValue, Expander.fileAccess?, hmem, Option.filter]

/-- The value of an input is described by its leaf. -/
theorem inputValue_eq_described (input : String) :
    x.inputValue input = x.described [.leaf (.inputValue input)] [.leaf (.inputValue input)] := by
  rw [inputValue_eq]
  simp only [Expander.described, Expander.tokens, Expander.token, Expander.leafToken,
    List.filterMap_cons, List.filterMap_nil, Expander.use?, Expander.valueInput?,
    Expander.pathInput?]
  cases x.fileAccess? input with
  | none => rfl
  | some access => rfl

mutual

/-- **The expansion of a placeholder** is what the walk through it describes, unless one of the
    steps is refused. -/
theorem expand_eq_judge : ∀ p : Placeholder, p.expand x =
    x.judge (p.steps x.arguments) (x.described (p.pieces x.arguments) (p.steps x.arguments))
  | .literal text => rfl
  | .inputValue input => by
    rw [Placeholder.expand, Placeholder.steps, Placeholder.pieces, judge_singleton,
      ← inputValue_eq_described, Expander.checkInput, Expander.refusal?]
    split
    next => rfl
    next => rfl
  | .inputPath input => by
    rw [Placeholder.expand, Placeholder.steps, Placeholder.pieces, judge_singleton,
      Expander.checkInput, Expander.refusal?]
    split
    next => rfl
    next => rfl
  | .outputPath output => by
    rw [Placeholder.expand, Placeholder.steps, Placeholder.pieces, judge_singleton,
      Expander.outputPath, Expander.refusal?]
    split
    next => rfl
    next => rfl
  | .concat items => by
    rw [Placeholder.expand, Placeholder.steps, Placeholder.pieces, expandAll_eq_judge items,
      judge_map]
    rfl
  | .branch condition yes no => by
    -- The walk takes the branch that the arguments select, as the expansion does.
    rw [Placeholder.expand, Placeholder.steps, Placeholder.pieces, holds_eq_judge]
    by_cases hselects : condition.selects x.arguments = true
    · rw [hselects, if_pos rfl, if_pos rfl]
      exact judge_bind [.condition condition] (expandAll_eq_judge yes)
    · rw [Bool.not_eq_true] at hselects
      rw [hselects, if_neg Bool.false_ne_true, if_neg Bool.false_ne_true]
      exact judge_bind [.condition condition] (expandElse_eq_judge no)

/-- The same for placeholders one behind another. -/
theorem expandAll_eq_judge : ∀ items : List Placeholder, Placeholder.expandAll x items =
    x.judge (Placeholder.stepsOf x.arguments items)
      (x.described (Placeholder.piecesOf x.arguments items) (Placeholder.stepsOf x.arguments items))
  | [] => rfl
  | item :: rest => by
    rw [Placeholder.expandAll, Placeholder.stepsOf, Placeholder.piecesOf, expand_eq_judge item,
      expandAll_eq_judge rest, ← described_append]
    apply judge_bind
    exact judge_map (x.described (item.pieces x.arguments) (item.steps x.arguments) ++ ·)

/-- The same for a branch that may be absent. -/
theorem expandElse_eq_judge : ∀ no : Option (List Placeholder), Placeholder.expandElse x no =
    x.judge (Placeholder.stepsOfElse x.arguments no)
      (x.described (Placeholder.piecesOfElse x.arguments no)
        (Placeholder.stepsOfElse x.arguments no))
  | none => rfl
  | some items => expandAll_eq_judge items

end

/-- The expansions of environment variables are what the walks through their values describe. -/
theorem expandEnv_eq_judge (entries : Keyed Placeholder) : x.expandEnv entries =
    x.judge (entries.flatMap fun entry => entry.2.steps x.arguments)
      (Keyed.mapValues
        (fun value =>
          x.described (value.pieces x.arguments) (value.steps x.arguments)) entries) := by
  induction entries with
  | nil => rfl
  | cons entry rest ih =>
    obtain ⟨name, value⟩ := entry
    rw [Expander.expandEnv, expand_eq_judge, ih, List.flatMap_cons]
    apply judge_bind
    exact judge_map fun others =>
      (name, x.described (value.pieces x.arguments) (value.steps x.arguments)) :: others

/-- The parts of a command line that the walk along a container describes. -/
def Expander.describedParts (x : Expander) (container : Container) : Parts :=
  { command := x.described (Placeholder.piecesOfElse x.arguments container.command)
      (Placeholder.stepsOfElse x.arguments container.command)
    args := x.described (Placeholder.piecesOfElse x.arguments container.args)
      (Placeholder.stepsOfElse x.arguments container.args)
    env := Keyed.mapValues
      (fun value => x.described (value.pieces x.arguments) (value.steps x.arguments))
      container.env }

/-- The parts of a command line are what the walk describes. -/
theorem parts_eq_judge (container : Container) :
    x.parts container = x.judge (container.walk x.arguments) (x.describedParts container) := by
  rw [Expander.parts, expandElse_eq_judge, expandElse_eq_judge, expandEnv_eq_judge, Container.walk,
    List.append_assoc]
  apply judge_bind
  apply judge_bind
  exact judge_map fun env => { x.describedParts container with env }

/-! ### Lists of inputs -/

/-- Adding elements one after another leaves out those that are there already. -/
theorem foldl_insertNew_eq (items start : List String) :
    items.foldl insertNew start = start ++ (items.filter (· ∉ start)).eraseDups := by
  -- By induction on the elements, with those that are there already on the left.
  induction items generalizing start with
  | nil => simp
  | cons item rest ih =>
    rw [List.foldl_cons, ih, insertNew]
    by_cases hmem : item ∈ start
    · rw [if_pos hmem, List.filter_cons_of_neg (by simpa using hmem)]
    · rw [if_neg hmem, List.filter_cons_of_pos (by simpa using hmem), List.eraseDups_cons,
        List.filter_filter, List.append_assoc, List.singleton_append]
      congr 3
      apply List.filter_congr
      intro other _
      rw [Bool.eq_iff_iff]
      simp [and_comm]

/-- The same for an empty list. -/
theorem foldl_insertNew_nil (items : List String) : items.foldl insertNew [] = items.eraseDups := by
  rw [foldl_insertNew_eq, List.nil_append, List.filter_eq_self.mpr fun item _ => by simp]

/-- The use that a step makes of an input is one by value or one by path. -/
theorem use?_inputs (step : Step) :
    ((x.use? step).bind fun | .byValue input => some input | .byPath _ => none) =
        x.valueInput? step ∧
      ((x.use? step).bind fun | .byPath input => some input | .byValue _ => none) =
        x.pathInput? step := by
  cases step with
  | condition => exact ⟨rfl, rfl⟩
  | leaf leaf =>
    cases leaf with
    | literal | inputPath | outputPath => exact ⟨rfl, rfl⟩
    | inputValue input =>
      rw [Expander.use?, Expander.valueInput?, Expander.pathInput?]
      -- Whether there is access to the file decides which of the two uses it is.
      cases (x.fileAccess? input).isSome with
      | true => exact ⟨rfl, rfl⟩
      | false => exact ⟨rfl, rfl⟩

/-- The inputs that steps use as parameters are listed in the order of their first use. -/
theorem valueInputs_eq (steps : List Step) :
    ({ uses := steps.filterMap x.use? } : Expansion).valueInputs =
      (steps.filterMap x.valueInput?).eraseDups := by
  rw [Expansion.valueInputs, foldl_insertNew_nil, List.filterMap_filterMap]
  congr 2
  funext step
  exact (use?_inputs step).1

/-- The same for the inputs that steps use as files. -/
theorem pathInputs_eq (steps : List Step) :
    ({ uses := steps.filterMap x.use? } : Expansion).pathInputs =
      (steps.filterMap x.pathInput?).eraseDups := by
  rw [Expansion.pathInputs, foldl_insertNew_nil, List.filterMap_filterMap]
  congr 2
  funext step
  exact (use?_inputs step).2

/-- The tokens of items that may be absent. -/
theorem described_else (items? : Option (List Placeholder)) :
    (items?.map fun _ => (x.described (Placeholder.piecesOfElse x.arguments items?)
        (Placeholder.stepsOfElse x.arguments items?)).tokens) =
      items?.map fun items => x.tokens (Placeholder.piecesOf x.arguments items) := by
  cases items? with
  | none => rfl
  | some items => rfl

/-- The parts that the walk describes make the command line that it describes. -/
theorem line_describedParts (container : Container) :
    (x.describedParts container).line container = x.reference container := by
  have huses : (x.describedParts container).uses =
      (container.walk x.arguments).filterMap x.use? := by
    simp only [Expander.Parts.uses, Expander.describedParts, Expander.described, Keyed.mapValues,
      List.flatMap_map, Container.walk, List.filterMap_append, List.filterMap_flatMap]
  have henv : Keyed.mapValues (fun e => String.join e.tokens) (x.describedParts container).env =
      (x.reference container).env := by
    simp only [Keyed.mapValues, Expander.describedParts, Expander.described, Expander.reference,
      List.map_map]
    rfl
  rw [Expander.Parts.line, huses, henv, valueInputs_eq, pathInputs_eq, Expander.describedParts,
    described_else, described_else]
  rfl

/-- **A command line** is what the walk along the container describes, unless one of the steps is
    refused. -/
theorem commandLine_eq_judge (container : Container) :
    x.commandLine container = x.judge (container.walk x.arguments) (x.reference container) := by
  rw [commandLine_eq, parts_eq_judge, judge_map, line_describedParts]

/-- **The command line of a component** that a container implements is what the walk along the
    container describes, if none of its steps is refused; and otherwise there is none, for the
    reason of the first step that is. -/
theorem commandLine_reference {container : Container}
    (hcontainer : x.component.implementation = .container container) :
    ((∀ step ∈ container.walk x.arguments, x.refusal? step = none) →
      x.component.commandLine x.arguments x.accessors x.parameters =
        .ok (x.reference container)) ∧
    ∀ before step after cause, container.walk x.arguments = before ++ step :: after →
      (∀ earlier ∈ before, x.refusal? earlier = none) → x.refusal? step = some cause →
        x.component.commandLine x.arguments x.accessors x.parameters =
          .error (.ofCause cause) := by
  have hline : x.component.commandLine x.arguments x.accessors x.parameters =
      x.judge (container.walk x.arguments) (x.reference container) := by
    rw [Component.commandLine, hcontainer]
    exact commandLine_eq_judge container
  rw [hline, Expander.judge]
  -- Without a refusal, none of the steps is found; and the first one that is refused is found
  -- first.
  refine ⟨fun hall => ?_, fun before step after cause hwalk hbefore hstep => ?_⟩
  · rw [List.findSome?_eq_none_iff.mpr hall]
  · rw [List.findSome?_eq_some_iff.mpr ⟨before, step, after, hwalk, hstep, hbefore⟩]

/-! ### A command line with branches -/

/-- A container with a branch inside a token, and one that leads to an input that is not
    declared. -/
def branchingContainer : Container :=
  { image := "a"
    command := some [
      .concat [.literal "--x=", .branch (.isPresent "x") [.inputValue "x"] none],
      .branch (.inputValue "flag") [.inputPath "y", .inputValue "x"] (some [.inputPath "unknown"])]
    env := [("OUT", .concat [.outputPath "o", .inputValue "y"])] }

/-- It is expanded for a target that reads values of artifacts, with one input as a parameter. -/
def branchingExpander : Expander :=
  { component :=
      { implementation := .container branchingContainer, name := .null, description := .null
        inputs := [{ name := "x" }, { name := "y" }, { name := "flag" }]
        outputs := [{ name := "o" }], metadata := [] }
    arguments := [("x", .graphInput "p" .null), ("flag", .literal "TRUE")]
    accessors :=
      { parameterValue := fun input => "<" ++ input ++ ">"
        artifactPath := fun input => "/in/" ++ input
        outputPath := fun output => "/out/" ++ output
        artifactValue? := some fun input => "@" ++ input }
    parameters := some ["x"] }

/-- Its command line is what the walk describes, and the branch that is not selected is not
    looked at. -/
theorem branchingExpander_commandLine :
    branchingExpander.component.implementation = .container branchingContainer ∧
      branchingExpander.component.commandLine branchingExpander.arguments
        branchingExpander.accessors branchingExpander.parameters = .ok
          { command := some ["--x=<x>", "/in/y", "<x>"]
            args := none
            env := [("OUT", "/out/o@y")]
            valueInputs := ["x"]
            pathInputs := ["y"] } := by
  have hcontainer : branchingExpander.component.implementation = .container branchingContainer :=
    rfl
  have hwalk : ∀ step ∈ branchingContainer.walk branchingExpander.arguments,
      branchingExpander.refusal? step = none := by
    decide +kernel
  refine ⟨hcontainer, ((commandLine_reference hcontainer).1 hwalk).trans (congrArg _ ?_)⟩
  decide +kernel

end PipelineCompiler
