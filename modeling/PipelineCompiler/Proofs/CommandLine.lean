import PipelineCompiler.Binding
import PipelineCompiler.CommandLine
import PipelineCompiler.Proofs.Agreement
import PipelineCompiler.Proofs.Keyed
import PipelineCompiler.Proofs.Success

namespace PipelineCompiler

/-!
# What command lines use

* `Expander.parts`, `commandLine_eq` — the expansions that a command line is put together from;
* `Expander.Matches` — two expanders whose expansions are related, leaf by leaf;
* `expand_matches`, `parts_matches` — all their expansions are related then, if they decide the
  conditions in the same way;
* `commandLine_uses` — a command line lists its uses, each of them once;
* `commandLine_of_decides`, `commandLine_congr` — it depends on the arguments in its conditions
  alone, and on nothing but what is found there;
* `commandLine_declared` — all inputs that it uses are declared;
* `commandLine_inputs` — whatever the target, it uses the same inputs;
* `admits_isProperUse` — a target with access to the values of artifacts reads only what is
  a parameter as one.

The induction on placeholders is that of `expand_matches`, which follows `Placeholder.expand`.  The
statements about command lines are what it says for one relation or another.
-/

variable {x y : Expander} {Q : Use → Prop}

/-! ### The parts of a command line -/

/-- What a command line is put together from: the expansions of the command, of the arguments, and
    of each environment variable. -/
structure Expander.Parts where
  command : Expansion
  args : Expansion
  env : Keyed Expansion

/-- All uses in a command line. -/
def Expander.Parts.uses (p : Parts) : List Use :=
  p.command.uses ++ p.args.uses ++ p.env.flatMap fun entry => entry.2.uses

/-- The command line of a container from its parts. -/
def Expander.Parts.line (p : Parts) (container : Container) : CommandLine :=
  let all : Expansion := { uses := p.uses }
  { env := Keyed.mapValues (fun e => String.join e.tokens) p.env
    command := container.command.map fun _ => p.command.tokens
    args := container.args.map fun _ => p.args.tokens
    valueInputs := all.valueInputs
    pathInputs := all.pathInputs }

namespace Expander

/-- The expansions of environment variables. -/
def expandEnv (x : Expander) : Keyed Placeholder → Except Failure (Keyed Expansion)
  | [] => .ok []
  | (name, value) :: rest => do
    let first ← value.expand x
    let others ← x.expandEnv rest
    pure ((name, first) :: others)

/-- The parts of the command line of a container. -/
def parts (x : Expander) (container : Container) : Except Failure Parts := do
  let command ← Placeholder.expandElse x container.command
  let args ← Placeholder.expandElse x container.args
  let env ← x.expandEnv container.env
  pure { command, args, env }

end Expander

/-- The environment is made from the expansions of its variables. -/
theorem environment_eq (x : Expander) (entries : Keyed Placeholder) :
    x.environment entries = (x.expandEnv entries).map fun env =>
      (Keyed.mapValues (fun e => String.join e.tokens) env,
        env.flatMap fun entry => entry.2.uses) := by
  induction entries with
  | nil => rfl
  | cons entry rest ih =>
    obtain ⟨name, value⟩ := entry
    rw [Expander.environment, Expander.expandEnv, ih]
    cases value.expand x with
    | error e => rfl
    | ok first =>
      cases x.expandEnv rest with
      | error e => rfl
      | ok others => rfl

/-- **A command line is made from its parts.** -/
theorem commandLine_eq (x : Expander) (container : Container) :
    x.commandLine container = (x.parts container).map fun p => p.line container := by
  rw [Expander.commandLine, Expander.parts, environment_eq]
  cases Placeholder.expandElse x container.command with
  | error e => rfl
  | ok command =>
    cases Placeholder.expandElse x container.args with
    | error e => rfl
    | ok args =>
      cases x.expandEnv container.env with
      | error e => rfl
      | ok env => rfl

/-! ### Related expansions -/

mutual

/-- The texts in a placeholder that stand for themselves. -/
def Placeholder.literals : Placeholder → List String
  | .literal text => [text]
  | .inputValue _ | .inputPath _ | .outputPath _ => []
  | .concat items => literalsOf items
  | .branch _ yes no => literalsOf yes ++ literalsOfElse no

/-- The same for several placeholders. -/
def Placeholder.literalsOf : List Placeholder → List String
  | [] => []
  | item :: rest => item.literals ++ literalsOf rest

/-- The same for a branch that may be absent. -/
def Placeholder.literalsOfElse : Option (List Placeholder) → List String
  | none => []
  | some items => literalsOf items

end

/-- The texts in a container that stand for themselves, its image among them. -/
def Container.literals (container : Container) : List String :=
  container.image :: (Placeholder.literalsOfElse container.command
    ++ Placeholder.literalsOfElse container.args
    ++ container.env.flatMap fun entry => entry.1 :: entry.2.literals)

mutual

/-- The conditions in a placeholder. -/
def Placeholder.conditions : Placeholder → List Condition
  | .literal _ | .inputValue _ | .inputPath _ | .outputPath _ => []
  | .concat items => conditionsOf items
  | .branch condition yes no => condition :: (conditionsOf yes ++ conditionsOfElse no)

/-- The same for several placeholders. -/
def Placeholder.conditionsOf : List Placeholder → List Condition
  | [] => []
  | item :: rest => item.conditions ++ conditionsOf rest

/-- The same for a branch that may be absent. -/
def Placeholder.conditionsOfElse : Option (List Placeholder) → List Condition
  | none => []
  | some items => conditionsOf items

end

/-- The conditions in the command line of a container, whether they have to be decided or not. -/
def Container.conditions (container : Container) : List Condition :=
  Placeholder.conditionsOfElse container.command ++ Placeholder.conditionsOfElse container.args
    ++ container.env.flatMap fun entry => entry.2.conditions

/-- Two expanders decide some conditions in the same way. -/
def Expander.Decides (x y : Expander) (conditions : List Condition) : Prop :=
  ∀ condition ∈ conditions, condition.holds y.arguments = condition.holds x.arguments

/-- The same for conditions one behind another. -/
theorem decides_append {a b : List Condition} :
    x.Decides y (a ++ b) ↔ x.Decides y a ∧ x.Decides y b := List.forall_mem_append

/-- The causes for which there is no command line. -/
def Cause.IsOfCommandLine : Cause → Prop
  | .undeclaredInput _ | .undeclaredOutput _ | .runtimeCondition _ => True
  | _ => False

/-- Two expanders accept the same inputs and outputs, and the expansions of whatever they accept are
    related. -/
structure Expander.Matches (T : Tolerance) (x y : Expander) (isText : String → Prop)
    (R : Expansion → Expansion → Prop) : Prop where
  refused : ∀ cause : Cause, cause.IsOfCommandLine → T.alike (.ofCause cause) (.ofCause cause)
  inputs : y.component.inputNames = x.component.inputNames
  outputs : y.component.outputNames = x.component.outputNames
  empty : R {} {}
  append : ∀ {a b a' b'}, R a b → R a' b' → R (a ++ a') (b ++ b')
  joined : ∀ {a b}, R a b → R a.joined b.joined
  literal : ∀ text, isText text → R { tokens := [text] } { tokens := [text] }
  value : ∀ input ∈ x.component.inputNames, R (x.inputValue input) (y.inputValue input)
  path : ∀ input ∈ x.component.inputNames, R (x.inputPath input) (y.inputPath input)
  output : ∀ output ∈ x.component.outputNames,
    R { tokens := [x.accessors.outputPath output] } { tokens := [y.accessors.outputPath output] }

section Matching

variable {T : Tolerance} {isText : String → Prop} {R : Expansion → Expansion → Prop}

/-- The expansions of a declared input are related. -/
theorem checked_matches (h : x.Matches T y isText R) (input : String) {e e' : Expansion}
    (he : input ∈ x.component.inputNames → R e e') :
    Agree T R (do x.checkInput input; pure e) (do y.checkInput input; pure e') := by
  rw [Expander.checkInput, Expander.checkInput, h.inputs]
  split
  next hmem => exact .both (he hmem)
  next => exact .neither (h.refused _ trivial)

/-- A condition is decided in the same way, or cannot be decided. -/
theorem holds_matches (h : x.Matches T y isText R) {condition : Condition}
    (hsame : condition.holds y.arguments = condition.holds x.arguments) :
    Agree T Eq (condition.holds x.arguments) (condition.holds y.arguments) := by
  rw [hsame]
  refine .refl fun e he => ?_
  cases condition with
  | bool | text | isPresent => cases he
  | inputValue input =>
    rw [Condition.holds] at he
    split at he
    · cases he
    · cases he
    · obtain rfl := Except.error.inj he
      exact h.refused _ trivial

mutual

/-- **The expansions of a placeholder are related**, or there are none, for one reason. -/
theorem expand_matches (h : x.Matches T y isText R) :
    ∀ p : Placeholder, (∀ text ∈ p.literals, isText text) → x.Decides y p.conditions →
      Agree T R (p.expand x) (p.expand y)
  | .literal text, htexts, _ => by
    rw [Placeholder.expand, Placeholder.expand]
    exact .both (h.literal text (htexts text (by simp [Placeholder.literals])))
  | .inputValue input, _, _ => by
    rw [Placeholder.expand, Placeholder.expand]
    exact checked_matches h input (h.value input)
  | .inputPath input, _, _ => by
    rw [Placeholder.expand, Placeholder.expand]
    exact checked_matches h input (h.path input)
  | .outputPath output, _, _ => by
    rw [Placeholder.expand, Placeholder.expand, Expander.outputPath, Expander.outputPath, h.outputs]
    split
    next hmem => exact .both (h.output output hmem)
    next => exact .neither (h.refused _ trivial)
  | .concat items, htexts, hholds => by
    rw [Placeholder.expand, Placeholder.expand]
    rw [Placeholder.literals] at htexts
    rw [Placeholder.conditions] at hholds
    exact (expandAll_matches h items htexts hholds).map fun _ _ => h.joined
  -- A condition decides in the same way for both, so the same branch is expanded.
  | .branch condition yes no, htexts, hholds => by
    rw [Placeholder.expand, Placeholder.expand]
    rw [Placeholder.literals] at htexts
    rw [Placeholder.conditions] at hholds
    obtain ⟨hcondition, hbranches⟩ := List.forall_mem_cons.mp hholds
    obtain ⟨hyes, hno⟩ := decides_append.mp hbranches
    refine (holds_matches h hcondition).bind fun holds _ he => ?_
    subst he
    cases holds with
    | true => exact expandAll_matches h yes (fun t ht => htexts t (List.mem_append_left _ ht)) hyes
    | false => exact expandElse_matches h no (fun t ht => htexts t (List.mem_append_right _ ht)) hno

/-- The same for expansions one behind another. -/
theorem expandAll_matches (h : x.Matches T y isText R) :
    ∀ items : List Placeholder, (∀ text ∈ Placeholder.literalsOf items, isText text) →
      x.Decides y (Placeholder.conditionsOf items) →
        Agree T R (Placeholder.expandAll x items) (Placeholder.expandAll y items)
  | [], _, _ => by
    rw [Placeholder.expandAll, Placeholder.expandAll]
    exact .both h.empty
  | item :: rest, htexts, hholds => by
    rw [Placeholder.expandAll, Placeholder.expandAll]
    rw [Placeholder.literalsOf] at htexts
    rw [Placeholder.conditionsOf] at hholds
    obtain ⟨hitem, hrest⟩ := decides_append.mp hholds
    -- Both fail at the first expansion that fails, and are put together otherwise.
    refine (expand_matches h item (fun t ht => htexts t (List.mem_append_left _ ht)) hitem).bind
      fun _ _ hfirst => ?_
    refine (expandAll_matches h rest (fun t ht => htexts t (List.mem_append_right _ ht)) hrest).bind
      fun _ _ hothers => ?_
    exact .both (h.append hfirst hothers)

/-- The same for a branch that may be absent. -/
theorem expandElse_matches (h : x.Matches T y isText R) :
    ∀ no :
      Option (List Placeholder), (∀ text ∈ Placeholder.literalsOfElse no, isText text) →
      x.Decides y (Placeholder.conditionsOfElse no) →
        Agree T R (Placeholder.expandElse x no) (Placeholder.expandElse y no)
  | none, _, _ => by
    rw [Placeholder.expandElse, Placeholder.expandElse]
    exact .both h.empty
  | some items, htexts, hholds => by
    rw [Placeholder.expandElse, Placeholder.expandElse]
    rw [Placeholder.literalsOfElse] at htexts
    rw [Placeholder.conditionsOfElse] at hholds
    exact expandAll_matches h items htexts hholds

end

/-- The expansions of environment variables are related one by one. -/
theorem expandEnv_matches (h : x.Matches T y isText R) (entries : Keyed Placeholder)
    (htexts : ∀ text ∈ entries.flatMap fun entry => entry.1 :: entry.2.literals, isText text)
    (hholds : x.Decides y (entries.flatMap fun entry => entry.2.conditions)) :
    Agree T (List.Forall₂ fun e e' => e.1 = e'.1 ∧ isText e.1 ∧ R e.2 e'.2)
      (x.expandEnv entries) (y.expandEnv entries) := by
  -- By induction on the variables; names are texts too, and are asked for like those in the values.
  induction entries with
  | nil => exact .both .nil
  | cons entry rest ih =>
    obtain ⟨name, value⟩ := entry
    simp only [List.flatMap_cons, List.mem_append, List.mem_cons] at htexts
    rw [List.flatMap_cons] at hholds
    obtain ⟨hvalue, hrest⟩ := decides_append.mp hholds
    rw [Expander.expandEnv, Expander.expandEnv]
    refine (expand_matches h value (fun t ht => htexts t (.inl (.inr ht))) hvalue).bind
      fun _ _ hfirst => ?_
    refine (ih (fun t ht => htexts t (.inr ht)) hrest).bind fun _ _ hothers => ?_
    exact .both (.cons ⟨rfl, htexts name (.inl (.inl rfl)), hfirst⟩ hothers)

/-- Parts of command lines that are related. -/
structure Expander.Parts.Related (isText : String → Prop) (R : Expansion → Expansion → Prop)
    (p q : Parts) : Prop where
  command : R p.command q.command
  args : R p.args q.args
  env : List.Forall₂ (fun e e' => e.1 = e'.1 ∧ isText e.1 ∧ R e.2 e'.2) p.env q.env

/-- **The parts of a command line are related**, or there are none, for one reason. -/
theorem parts_matches (h : x.Matches T y isText R) (container : Container)
    (htexts : ∀ text ∈ container.literals, isText text)
    (hholds : x.Decides y container.conditions) :
    Agree T (Expander.Parts.Related isText R) (x.parts container) (y.parts container) := by
  simp only [Container.literals, List.mem_cons, List.mem_append] at htexts
  rw [Container.conditions, decides_append, decides_append] at hholds
  obtain ⟨⟨hcommands, harguments⟩, hvariables⟩ := hholds
  rw [Expander.parts, Expander.parts]
  -- Command, arguments and environment, each with its share of texts and conditions.
  refine (expandElse_matches h _ (fun t ht => htexts t (.inr (.inl (.inl ht)))) hcommands).bind
    fun _ _ hcommand => ?_
  refine (expandElse_matches h _ (fun t ht => htexts t (.inr (.inl (.inr ht)))) harguments).bind
    fun _ _ hargs => ?_
  refine (expandEnv_matches h _ (fun t ht => htexts t (.inr (.inr ht))) hvariables).bind
    fun _ _ henv => ?_
  exact .both ⟨hcommand, hargs, henv⟩

end Matching

/-! ### Uses -/

/-- The uses of declared inputs have a property, whether they are read by value or by path. -/
structure Expander.Admits (x : Expander) (Q : Use → Prop) : Prop where
  value : ∀ input ∈ x.component.inputNames, ∀ use ∈ (x.inputValue input).uses, Q use
  path : ∀ input ∈ x.component.inputNames, ∀ use ∈ (x.inputPath input).uses, Q use

/-- The uses of expansions that are put together. -/
theorem append_uses (a b : Expansion) : (a ++ b).uses = a.uses ++ b.uses := rfl

/-- All uses in expansions have the property. -/
theorem Expander.Admits.matches (hQ : x.Admits Q) :
    x.Matches .same x (fun _ => True) fun e _ => ∀ use ∈ e.uses, Q use where
  refused _ _ := rfl
  inputs := rfl
  outputs := rfl
  empty := fun _ huse => nomatch huse
  append := by
    intro a b a' b' h h' use huse
    rw [append_uses] at huse
    exact (List.mem_append.mp huse).elim (h use) (h' use)
  joined h := h
  literal _ _ := fun _ huse => nomatch huse
  value := hQ.value
  path := hQ.path
  output _ _ := fun _ huse => nomatch huse

/-- An input is listed as a parameter when it is used by value somewhere. -/
theorem mem_valueInputs {e : Expansion} {input : String} :
    input ∈ e.valueInputs ↔ .byValue input ∈ e.uses := by
  rw [Expansion.valueInputs, mem_foldl_insertNew, List.mem_filterMap]
  constructor
  · rintro (h | ⟨use, huse, heq⟩)
    · cases h
    · cases use with
      | byValue other =>
        obtain rfl := Option.some.inj heq
        exact huse
      | byPath other => cases heq
  · exact fun h => .inr ⟨_, h, rfl⟩

/-- An input is listed as a file when it is used by path somewhere. -/
theorem mem_pathInputs {e : Expansion} {input : String} :
    input ∈ e.pathInputs ↔ .byPath input ∈ e.uses := by
  rw [Expansion.pathInputs, mem_foldl_insertNew, List.mem_filterMap]
  constructor
  · rintro (h | ⟨use, huse, heq⟩)
    · cases h
    · cases use with
      | byPath other =>
        obtain rfl := Option.some.inj heq
        exact huse
      | byValue other => cases heq
  · exact fun h => .inr ⟨_, h, rfl⟩

/-- What the lists of inputs in a command line have in common: what is listed is used in some way,
    and is listed once. -/
structure CommandLine.Lists (line : CommandLine) (Q : Use → Prop) : Prop where
  values : ∀ input ∈ line.valueInputs, Q (.byValue input)
  paths : ∀ input ∈ line.pathInputs, Q (.byPath input)
  valuesNodup : line.valueInputs.Nodup
  pathsNodup : line.pathInputs.Nodup

/-- **A command line lists its uses.** -/
theorem commandLine_uses (hQ : x.Admits Q) {container : Container} {line : CommandLine}
    (h : x.commandLine container = .ok line) : line.Lists Q := by
  rw [commandLine_eq] at h
  obtain ⟨p, hp, rfl⟩ := map_eq_ok.mp h
  obtain ⟨_, -, hcommand, hargs, henv⟩ :=
    (parts_matches hQ.matches container (fun _ _ => trivial) fun _ _ => rfl).exists_ok hp
  -- A use in the whole line is one in the command, the arguments or a variable.
  have hall : ∀ use ∈ p.uses, Q use := by
    intro use huse
    rcases List.mem_append.mp huse with huse | huse
    · exact (List.mem_append.mp huse).elim (hcommand use) (hargs use)
    · obtain ⟨entry, hentry, huse⟩ := List.mem_flatMap.mp huse
      obtain ⟨-, -, -, -, hentry⟩ := exists_right_of_mem henv hentry
      exact hentry use huse
  exact ⟨fun input hinput => hall _ (mem_valueInputs.mp hinput),
    fun input hinput => hall _ (mem_pathInputs.mp hinput), nodup_foldl_insertNew List.nodup_nil,
    nodup_foldl_insertNew List.nodup_nil⟩

/-! ### Parameters and artifacts -/

/-- A use of a declared input, which is a parameter when it is read as one. -/
def IsProperUse (x : Expander) (parameters : List String) : Use → Prop
  | .byValue input => input ∈ x.component.inputNames ∧ input ∈ parameters
  | .byPath input => input ∈ x.component.inputNames

/-- What is no parameter is read from the file of an artifact, by a target that can do that. -/
theorem admits_isProperUse {parameters : List String} (hparameters : x.parameters = some parameters)
    (hvalue : x.accessors.artifactValue?.isSome = true) : x.Admits (IsProperUse x parameters) := by
  obtain ⟨artifactValue, hartifactValue⟩ := Option.isSome_iff_exists.mp hvalue
  -- Whether it is a parameter decides how the value of an input is read; a path is always that of a
  -- file.
  refine ⟨fun input hinput use huse => ?_, fun input hinput use huse => ?_⟩
  · unfold Expander.inputValue at huse
    rw [hartifactValue, hparameters] at huse
    dsimp only at huse
    split at huse
    next hmem =>
      obtain rfl := List.mem_singleton.mp huse
      exact ⟨hinput, hmem⟩
    next =>
      obtain rfl := List.mem_singleton.mp huse
      exact hinput
  · obtain rfl := List.mem_singleton.mp huse
    exact hinput

/-- An input that gets a parameter gets no output of a task. -/
theorem isParameter_of_mem {c : Component} {arguments : Keyed Argument}
    {graphParameters : List String} {name : String}
    (h : name ∈ c.parameterInputs arguments graphParameters) {argument : Argument}
    (hargument : Keyed.find? arguments name = some argument) :
    argument.isParameter graphParameters = true := by
  unfold Component.parameterInputs at h
  have hall := (List.mem_filter.mp h).2
  rw [hargument] at hall
  exact hall

/-! ### Other arguments -/

/-- Expanders with other arguments have the same expansions. -/
theorem matches_arguments (x : Expander) (arguments : Keyed Argument) :
    x.Matches .same { x with arguments } (fun _ => True) Eq where
  refused _ _ := rfl
  inputs := rfl
  outputs := rfl
  empty := rfl
  append h h' := by rw [h, h']
  joined h := by rw [h]
  literal _ _ := rfl
  value _ _ := rfl
  path _ _ := rfl
  output _ _ := rfl

/-- **A command line depends on the arguments in its conditions alone.** -/
theorem commandLine_of_decides {arguments : Keyed Argument} {container : Container}
    (h : x.Decides { x with arguments } container.conditions) :
    Expander.commandLine { x with arguments } container = x.commandLine container := by
  have hparts := parts_matches (matches_arguments x arguments) container (fun _ _ => trivial) h
  rw [commandLine_eq, commandLine_eq, (hparts.mono ?_).eq]
  rintro ⟨command, args, env⟩ ⟨command', args', env'⟩ ⟨rfl, rfl, henv⟩
  obtain rfl : env = env' := List.forall₂_eq_eq_eq ▸ henv.imp fun e e' he =>
    Prod.ext he.1 he.2.2
  rfl

/-- A condition is decided by what is found. -/
theorem holds_congr {arguments : Keyed Argument} (h : x.arguments.Same arguments)
    (condition : Condition) : condition.holds arguments = condition.holds x.arguments := by
  cases condition with
  | bool | text => rfl
  | isPresent input => rw [Condition.holds, Condition.holds, h.has]
  | inputValue input => rw [Condition.holds, Condition.holds, h input]

/-- **A command line depends on nothing but what is found in the arguments.** -/
theorem commandLine_congr {arguments : Keyed Argument} (h : x.arguments.Same arguments)
    (container : Container) :
    Expander.commandLine { x with arguments } container = x.commandLine container :=
  commandLine_of_decides fun condition _ => holds_congr h condition

/-! ### Other targets -/

/-- The input that is used. -/
def Use.input : Use → String
  | .byValue input | .byPath input => input

/-- The inputs that a command line uses, in one way or another. -/
def CommandLine.inputs (line : CommandLine) : List String := line.valueInputs ++ line.pathInputs

/-- An input is used when one of the uses is a use of it. -/
theorem mem_inputs_line {container : Container} {p : Expander.Parts} {input : String} :
    input ∈ (p.line container).inputs ↔ input ∈ p.uses.map Use.input := by
  rw [CommandLine.inputs, List.mem_append, Expander.Parts.line, mem_valueInputs, mem_pathInputs,
    List.mem_map]
  constructor
  · rintro (h | h)
    · exact ⟨_, h, rfl⟩
    · exact ⟨_, h, rfl⟩
  · rintro ⟨use, huse, rfl⟩
    cases use with
    | byValue => exact .inl huse
    | byPath => exact .inr huse

/-- Whatever the target, an input is used when its value is. -/
theorem inputValue_input (x : Expander) (input : String) :
    (x.inputValue input).uses.map Use.input = [input] := by
  unfold Expander.inputValue
  split
  · split
    · rfl
    · rfl
  · rfl

/-- **All inputs that a command line uses are declared.** -/
theorem commandLine_declared {container : Container} {line : CommandLine}
    (h : x.commandLine container = .ok line) :
    ∀ input ∈ line.inputs, input ∈ x.component.inputNames := by
  have hadmits : x.Admits fun use => use.input ∈ x.component.inputNames := by
    refine ⟨fun input hinput use huse => ?_, fun input hinput use huse => ?_⟩
    · have hmem := List.mem_map_of_mem (f := Use.input) huse
      rw [inputValue_input, List.mem_singleton] at hmem
      exact hmem ▸ hinput
    · obtain rfl := List.mem_singleton.mp huse
      exact hinput
  obtain ⟨hvalues, hpaths, -, -⟩ := commandLine_uses hadmits h
  exact fun input hinput => (List.mem_append.mp hinput).elim (hvalues input) (hpaths input)

/-- Expanders for different targets use the same inputs. -/
theorem matches_inputs {mayStop : Prop} (hcomponent : y.component = x.component) :
    x.Matches (.verdict mayStop) y (fun _ => True)
      fun e e' => e.uses.map Use.input = e'.uses.map Use.input where
  refused cause hcause := by
    refine Tolerance.alike_verdict ?_
    -- All causes for which an expansion is refused are known to each target.
    cases cause with
    | undeclaredInput | undeclaredOutput | runtimeCondition => exact fun h => nomatch h
    | _ => cases hcause
  inputs := by rw [hcomponent]
  outputs := by rw [hcomponent]
  empty := rfl
  append h h' := by rw [append_uses, append_uses, List.map_append, List.map_append, h, h']
  joined h := h
  literal _ _ := rfl
  value input _ := by rw [inputValue_input, inputValue_input]
  path _ _ := rfl
  output _ _ := rfl

/-- **Whatever the target, the command line of a container uses the same inputs**, or there is
    none, for a reason that every target knows. -/
theorem commandLine_inputs {mayStop : Prop} (hcomponent : y.component = x.component)
    (harguments : y.arguments = x.arguments) (container : Container) :
    Agree (.verdict mayStop) (fun line line' => ∀ input, input ∈ line.inputs ↔
      input ∈ line'.inputs)
      (x.commandLine container) (y.commandLine container) := by
  rw [commandLine_eq, commandLine_eq]
  refine (parts_matches (matches_inputs hcomponent) container (fun _ _ => trivial)
    fun _ _ => by rw [harguments]).map ?_
  rintro p q ⟨hcommand, hargs, henv⟩ input
  have hvariables : (p.env.flatMap fun entry => entry.2.uses).map Use.input =
      (q.env.flatMap fun entry => entry.2.uses).map Use.input := by
    rw [List.map_flatMap, List.map_flatMap]
    exact flatMap_eq_of_forall₂ (henv.imp fun _ _ hentry => hentry.2.2)
  rw [mem_inputs_line, mem_inputs_line, Expander.Parts.uses, Expander.Parts.uses]
  simp only [List.map_append, hcommand, hargs, hvariables]

end PipelineCompiler
