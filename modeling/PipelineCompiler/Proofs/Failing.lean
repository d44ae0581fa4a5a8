import PipelineCompiler.Context
import PipelineCompiler.Naming.Registry
import PipelineCompiler.Proofs.Component.Flat

namespace PipelineCompiler

/-!
# How steps fail

Most steps fail in a few ways only, and a chain of steps fails in the ways of its steps.

* `bind_eq_error`, `Recorded.bind_eq_error` — where a chain fails;
* `FailsOnly` — a step fails with failures of a kind only, and its laws for chains;
* `IsLenient` — kinds with all failures that are no compilation errors, which are all that
  settings, texts of documents and registries fail with;
* `failsOnly_commandLine` — command lines fail for their own causes only;
* `Failure.outward` — a failure at the end of a path, seen from its beginning;
* `tasks_error` — tasks that are compiled one after another fail as one of them does;
* `Failure.Avoids` — failures that are not of a kind: that an argument is missing, or a constant
  passed as a file, is no failure of an order or a command line;
* `bound_error`, `failsOnly_bound` — inputs that are given nothing.
-/

/-! ### Chains that fail -/

/-- A chain of two steps fails when the first does, or else when the second does. -/
theorem bind_eq_error {ε α β : Type} {x : Except ε α} {f : α → Except ε β} {e : ε} :
    (x >>= f) = .error e ↔ x = .error e ∨ ∃ a, x = .ok a ∧ f a = .error e := by
  cases x with
  | error other => simp [bind, Except.bind]
  | ok a => simp [bind, Except.bind]

/-- A function of the result leaves failures alone. -/
theorem map_eq_error {ε α β : Type} {x : Except ε α} {f : α → β} {e : ε} :
    x.map f = .error e ↔ x = .error e := by
  cases x with
  | error other => simp [Except.map]
  | ok a => simp [Except.map]

/-- The same for recorded steps. -/
theorem Recorded.bind_eq_error {α β : Type} {x : Recorded α}
    {f : α → Recorded β} {e : Failure} :
    (x >>= f).result = .error e ↔
      x.result = .error e ∨ ∃ a, x.result = .ok a ∧ (f a).result = .error e := by
  rw [Recorded.result_bind]
  exact PipelineCompiler.bind_eq_error

/-- The same for a step that is taken unless a condition holds. -/
theorem Recorded.unless_eq_error {α β : Type} {p : Prop} [Decidable p] {x : Recorded α}
    {y : Recorded β} {e : Failure} (h : (if p then y else x >>= fun _ => y).result = .error e) :
    x.result = .error e ∨ y.result = .error e := by
  split at h
  · exact .inr h
  · rcases Recorded.bind_eq_error.mp h with h | ⟨a, -, h⟩
    · exact .inl h
    · exact .inr h

/-- Whatever a step fails with has a property. -/
def FailsOnly {α : Type} (p : Failure → Prop) (x : Except Failure α) : Prop :=
  ∀ e, x = .error e → p e

section Chains

variable {α β : Type} {p : Failure → Prop}

/-- A step with a result does not fail. -/
theorem failsOnly_ok (a : α) : FailsOnly p (.ok a) := fun _ h => nomatch h

/-- A step fails with its failure. -/
theorem failsOnly_error {e : Failure} (h : p e) : FailsOnly p (.error e : Except Failure α) :=
  fun _ he => Except.error.inj he ▸ h

/-- Two steps, one after the other. -/
theorem FailsOnly.bind {x : Except Failure α} {f : α → Except Failure β} (hx : FailsOnly p x)
    (hf : ∀ a, x = .ok a → FailsOnly p (f a)) : FailsOnly p (x >>= f) := by
  intro e he
  rcases bind_eq_error.mp he with he | ⟨a, ha, he⟩
  · exact hx e he
  · exact hf a ha e he

/-- A function is applied to the result. -/
theorem FailsOnly.map {x : Except Failure α} (hx : FailsOnly p x) (f : α → β) :
    FailsOnly p (x.map f) := fun e he => hx e (map_eq_error.mp he)

/-- Two recorded steps, one after the other. -/
theorem FailsOnly.bindRecorded {x : Recorded α} {f : α → Recorded β}
    (hx : FailsOnly p x.result)
    (hf : ∀ a, x.result = .ok a → FailsOnly p (f a).result) : FailsOnly p (x >>= f).result := by
  rw [Recorded.result_bind]
  exact hx.bind hf

/-- A step for each item of a list. -/
theorem failsOnly_mapM {f : α → Except Failure β} (hf : ∀ a, FailsOnly p (f a))
    (items : List α) :
    FailsOnly p (items.mapM f) := by
  induction items with
  | nil => exact failsOnly_ok []
  | cons a rest ih =>
    rw [List.mapM_cons]
    exact (hf a).bind fun _ _ => ih.bind fun _ _ => failsOnly_ok _

/-- A step for each item of a list, from the result of the one before. -/
theorem failsOnly_foldlM {f : β → α → Except Failure β} (hf : ∀ b a, FailsOnly p (f b a))
    (items : List α) (start : β) : FailsOnly p (items.foldlM f start) := by
  induction items generalizing start with
  | nil => exact failsOnly_ok start
  | cons a rest ih =>
    rw [List.foldlM_cons]
    exact (hf start a).bind fun b _ => ih b

end Chains

/-! ### Failures that are no compilation errors -/

/-- A property of failures that all have which are no compilation errors. -/
def IsLenient (p : Failure → Prop) : Prop := ∀ e : Failure, e.verdict? = none → p e

variable {p : Failure → Prop}

section Lenient

variable (hp : IsLenient p)

include hp

/-- A key that is not there. -/
theorem failsOnly_fetch {α : Type} (entries : Keyed α) (key : String) :
    FailsOnly p (Keyed.fetch entries key) := by
  unfold Keyed.fetch
  split
  · exact failsOnly_ok _
  · exact failsOnly_error (hp _ rfl)

/-- A setting that is not there. -/
theorem failsOnly_value (s : Settings) (name : String) : FailsOnly p (s.value name) := by
  unfold Settings.value
  split
  · exact failsOnly_ok _
  · exact failsOnly_error (hp _ rfl)

/-- A setting that is no text. -/
theorem failsOnly_text (s : Settings) (name : String) : FailsOnly p (s.text name) := by
  refine (failsOnly_value hp s name).bind fun v _ => ?_
  split
  · exact failsOnly_ok _
  · exact failsOnly_error (hp _ rfl)

/-- A setting that is no length. -/
theorem failsOnly_length (s : Settings) (name : String) : FailsOnly p (s.length name) := by
  refine (failsOnly_value hp s name).bind fun v _ => ?_
  split
  · exact failsOnly_ok _
  · exact failsOnly_ok _
  · exact failsOnly_ok _
  · exact failsOnly_error (hp _ rfl)

/-- A section of the configuration that is not there. -/
theorem failsOnly_settings (context : Context) : FailsOnly p context.settings := by
  unfold Context.settings
  split
  · split
    · exact failsOnly_ok _
    · exact failsOnly_error (hp _ rfl)
  · exact failsOnly_error (hp _ rfl)

/-- A name that is no text. -/
theorem failsOnly_nameOr (name : Value) (standIn : String) : FailsOnly p (nameOr name standIn) := by
  unfold nameOr
  split
  · exact failsOnly_ok _
  · exact failsOnly_error (hp _ rfl)

/-- A sequence with an item that is no pair. -/
theorem failsOnly_mappingOfPairs (items : List Value) :
    FailsOnly p (Value.mappingOfPairs items) := by
  refine failsOnly_foldlM (fun entries item => FailsOnly.bind ?_ fun _ _ => failsOnly_ok _) items []
  unfold Value.pairOf
  dsimp only
  repeat' split
  all_goals first
    | exact failsOnly_ok _
    | exact failsOnly_error (hp _ rfl)

/-- A declared input that is not there. -/
theorem failsOnly_fetchInput (c : Component) (name : String) : FailsOnly p (c.fetchInput name) := by
  unfold Component.fetchInput
  split
  · exact failsOnly_ok _
  · exact failsOnly_error (hp _ rfl)

/-- A value that is no mapping. -/
theorem failsOnly_mappingOf (v : Value) : FailsOnly p (Value.mappingOf v) := by
  unfold Value.mappingOf
  split
  · exact failsOnly_ok _
  · exact failsOnly_mappingOfPairs hp _
  · exact failsOnly_mappingOfPairs hp _
  · exact failsOnly_mappingOfPairs hp _
  · exact failsOnly_mappingOfPairs hp _
  · exact failsOnly_mappingOfPairs hp _
  · exact failsOnly_error (hp _ rfl)

/-- An argument without a plain form. -/
theorem failsOnly_rootTexts (c : Component) (arguments : Keyed Value) :
    FailsOnly p (c.rootTexts arguments).result := by
  rw [rootTexts_result]
  split
  · exact failsOnly_ok _
  · exact failsOnly_error (hp _ rfl)

/-! ### Texts of documents -/

/-- A scalar that has no text. -/
theorem failsOnly_scalar (v : Value) : FailsOnly p (Json.scalar v) := by
  unfold Json.scalar
  split
  · exact failsOnly_ok _
  · exact failsOnly_ok _
  · split
    · exact failsOnly_error (hp _ rfl)
    · exact failsOnly_ok _
  · exact failsOnly_ok _
  · exact failsOnly_ok _
  · exact failsOnly_error (hp _ rfl)

/-- A key that has no text. -/
theorem failsOnly_key (v : Value) : FailsOnly p (Json.key v) := by
  unfold Json.key
  split
  · exact failsOnly_ok _
  · exact (failsOnly_scalar hp _).map _

/-- Keys that have no order. -/
theorem failsOnly_arrange (style : Json.Style) (entries : List (Value × String)) :
    FailsOnly p (style.arrange entries) := by
  unfold Json.Style.arrange
  split
  · split
    · exact failsOnly_ok _
    · exact failsOnly_error (hp _ rfl)
  · exact failsOnly_ok _

end Lenient

mutual

/-- A value that has no text. -/
theorem failsOnly_writeWithin (hp : IsLenient p) (style : Json.Style) (around : List Nat)
    (level : Nat) (v : Value) : FailsOnly p (Json.writeWithin style around level v) := by
  -- Along the data; a value inside itself is the only failure of its own.
  cases v with
  | list items =>
    rw [Json.writeWithin]
    exact (failsOnly_writeItems hp style around (level + 1) items).bind fun _ _ => failsOnly_ok _
  | tuple items =>
    rw [Json.writeWithin]
    exact (failsOnly_writeItems hp style around (level + 1) items).bind fun _ _ => failsOnly_ok _
  | map entries =>
    rw [Json.writeWithin]
    exact (failsOnly_writeEntries hp style around (level + 1) entries).bind fun written _ =>
      (failsOnly_arrange hp style written).bind fun _ _ => failsOnly_ok _
  | placed place v =>
    rw [Json.writeWithin]
    split
    · exact failsOnly_error (hp _ rfl)
    · exact failsOnly_writeWithin hp style (place :: around) level v
  | _ =>
    rw [Json.writeWithin]
    · exact failsOnly_scalar hp _
    all_goals intros; contradiction

/-- An item that has no text. -/
theorem failsOnly_writeItems (hp : IsLenient p) (style : Json.Style) (around : List Nat)
    (level : Nat) (items : List Value) :
    FailsOnly p (Json.writeItems style around level items) := by
  cases items with
  | nil =>
    rw [Json.writeItems]
    exact failsOnly_ok _
  | cons item rest =>
    rw [Json.writeItems]
    exact (failsOnly_writeWithin hp style around level item).bind fun _ _ =>
      (failsOnly_writeItems hp style around level rest).bind fun _ _ => failsOnly_ok _

/-- An entry that has no text. -/
theorem failsOnly_writeEntries (hp : IsLenient p) (style : Json.Style) (around : List Nat)
    (level : Nat) (entries : List (Value × Value)) :
    FailsOnly p (Json.writeEntries style around level entries) := by
  cases entries with
  | nil =>
    rw [Json.writeEntries]
    exact failsOnly_ok _
  | cons entry rest =>
    obtain ⟨name, value⟩ := entry
    rw [Json.writeEntries]
    exact (failsOnly_key hp name).bind fun _ _ =>
      (failsOnly_writeWithin hp style around level value).bind fun _ _ =>
        (failsOnly_writeEntries hp style around level rest).bind fun _ _ => failsOnly_ok _

end

section Lenient

variable (hp : IsLenient p)

include hp

/-- A record that has no text. -/
theorem failsOnly_structuralText (nameField : Option String) (record : Value) :
    FailsOnly p (structuralText nameField record) := by
  unfold structuralText
  split
  · refine FailsOnly.bind (failsOnly_writeWithin hp _ _ _ _) fun text _ => ?_
    unfold wholeText
    split
    · exact failsOnly_ok _
    · exact failsOnly_error (hp _ rfl)
  · exact failsOnly_error (hp _ rfl)

/-! ### Names -/

/-- A name that cannot be told from others. -/
theorem failsOnly_freeName (policy : NamePolicy) (used : List String) (stem : String) :
    FailsOnly p (freeName policy used stem) := by
  unfold freeName
  dsimp only
  split
  · split
    · exact failsOnly_ok _
    · exact failsOnly_error (hp _ rfl)
  · exact failsOnly_ok _

/-- A name that cannot be reserved. -/
theorem failsOnly_reserve (a : NameAllocator) (stem : String) : FailsOnly p (a.reserve stem) :=
  (failsOnly_freeName hp a.policy a.used stem).bind fun _ _ => failsOnly_ok _

/-- A part that cannot be interned. -/
theorem failsOnly_intern {α : Type} (r : Registry α) (record : α → Value)
    {stem : Except Failure String} (hstem : FailsOnly p stem) (part : α) :
    FailsOnly p (r.intern record stem part).result := by
  refine FailsOnly.bindRecorded ?_ fun key _ => FailsOnly.bindRecorded ?_ fun given _ => ?_
  · exact (failsOnly_structuralText hp _ _).map _
  · refine (?_ : FailsOnly p (r.names.allocateFor stem key))
    unfold NameAllocator.allocateFor
    split
    · exact failsOnly_ok _
    · exact hstem.bind fun _ _ => (failsOnly_reserve hp _ _).bind fun _ _ => failsOnly_ok _
  · dsimp only
    split
    · exact failsOnly_ok _
    · exact failsOnly_ok _

end Lenient

/-! ### Command lines -/

/-- A property of failures that all have which come of command lines. -/
def HoldsOfCommandLines (p : Failure → Prop) : Prop :=
  ∀ cause : Cause, cause.IsOfCommandLine → p (.ofCause cause)

section CommandLines

variable {p : Failure → Prop} (x : Expander)

/-- An input that is not declared. -/
theorem failsOnly_checkInput (hp : HoldsOfCommandLines p) (input : String) :
    FailsOnly p (x.checkInput input) := by
  unfold Expander.checkInput
  split
  · exact failsOnly_ok _
  · exact failsOnly_error (hp _ trivial)

/-- An output that is not declared. -/
theorem failsOnly_outputPath (hp : HoldsOfCommandLines p) (output : String) :
    FailsOnly p (x.outputPath output) := by
  unfold Expander.outputPath
  split
  · exact failsOnly_ok _
  · exact failsOnly_error (hp _ trivial)

/-- A condition that cannot be decided. -/
theorem failsOnly_holds (hp : HoldsOfCommandLines p) (condition : Condition) :
    FailsOnly p (condition.holds x.arguments) := by
  cases condition with
  | bool | text | isPresent => exact failsOnly_ok _
  | inputValue input =>
    rw [Condition.holds]
    split
    · exact failsOnly_ok _
    · exact failsOnly_ok _
    · exact failsOnly_error (hp _ trivial)

mutual

/-- A placeholder without an expansion. -/
theorem failsOnly_expand (hp : HoldsOfCommandLines p) :
    -- By recursion on the placeholder; only inputs, outputs and conditions have failures of their
    -- own.
    ∀ placeholder : Placeholder, FailsOnly p (placeholder.expand x)
  | .literal _ => by
    rw [Placeholder.expand]
    exact failsOnly_ok _
  | .inputValue input => by
    rw [Placeholder.expand]
    exact (failsOnly_checkInput x hp input).bind fun _ _ => failsOnly_ok _
  | .inputPath input => by
    rw [Placeholder.expand]
    exact (failsOnly_checkInput x hp input).bind fun _ _ => failsOnly_ok _
  | .outputPath output => by
    rw [Placeholder.expand]
    exact failsOnly_outputPath x hp output
  | .concat items => by
    rw [Placeholder.expand]
    exact (failsOnly_expandAll hp items).map _
  | .branch condition yes no => by
    rw [Placeholder.expand]
    refine (failsOnly_holds x hp condition).bind fun holds _ => ?_
    cases holds with
    | true => exact failsOnly_expandAll hp yes
    | false => exact failsOnly_expandElse hp no

/-- Placeholders without expansions. -/
theorem failsOnly_expandAll (hp : HoldsOfCommandLines p) :
    ∀ items : List Placeholder, FailsOnly p (Placeholder.expandAll x items)
  | [] => by
    rw [Placeholder.expandAll]
    exact failsOnly_ok _
  | item :: rest => by
    rw [Placeholder.expandAll]
    exact (failsOnly_expand hp item).bind fun _ _ => (failsOnly_expandAll hp rest).bind fun _ _ =>
      failsOnly_ok _

/-- A branch without an expansion. -/
theorem failsOnly_expandElse (hp : HoldsOfCommandLines p) :
    ∀ no : Option (List Placeholder), FailsOnly p (Placeholder.expandElse x no)
  | none => by
    rw [Placeholder.expandElse]
    exact failsOnly_ok _
  | some items => by
    rw [Placeholder.expandElse]
    exact failsOnly_expandAll hp items

end

/-- Variables without values. -/
theorem failsOnly_environment (hp : HoldsOfCommandLines p) (entries : Keyed Placeholder) :
    FailsOnly p (x.environment entries) := by
  induction entries with
  | nil => exact failsOnly_ok _
  | cons entry rest ih =>
    obtain ⟨name, value⟩ := entry
    rw [Expander.environment]
    exact (failsOnly_expand x hp value).bind fun _ _ => ih.bind fun _ _ => failsOnly_ok _

/-- **A container without a command line**: it fails for a cause of its own. -/
theorem failsOnly_commandLine (hp : HoldsOfCommandLines p) (container : Container) :
    FailsOnly p (x.commandLine container) := by
  unfold Expander.commandLine
  exact (failsOnly_expandElse x hp _).bind fun _ _ => (failsOnly_expandElse x hp _).bind fun _ _ =>
    (failsOnly_environment x hp _).bind fun _ _ => failsOnly_ok _

end CommandLines

/-! ### Failures at a path -/

namespace Failure

/-- A failure that came up at the end of a path, seen from its beginning. -/
def outward (e : Failure) (path : List String) : Failure :=
  path.foldl (fun e id => e.within id) e

/-- Seen from further out. -/
theorem outward_append (e : Failure) (path around : List String) :
    e.outward (path ++ around) = (e.outward path).outward around := List.foldl_append

/-- The cause of a compilation error is the same from everywhere, and the tasks around it are added
    to its path. -/
theorem outward_compilation (cause : Cause) (inner path : List String) :
    (Failure.compilation { cause, taskPath := inner }).outward path =
      .compilation { cause, taskPath := path.reverse ++ inner } := by
  induction path generalizing inner with
  | nil => rfl
  | cons id rest ih =>
    rw [List.reverse_cons, List.append_assoc]
    exact ih (id :: inner)

/-- A failure that is a compilation error from further out is one. -/
theorem eq_of_outward {e : Failure} {path : List String} {error : CompilationError}
    (h : e.outward path = .compilation error) : ∃ inner,
      e = .compilation { cause := error.cause, taskPath := inner } ∧
        error.taskPath = path.reverse ++ inner := by
  cases e with
  | compilation found =>
    rw [outward_compilation] at h
    obtain rfl := Failure.compilation.inj h
    exact ⟨found.taskPath, rfl, rfl⟩
  | config | refusal | accident =>
    exfalso
    induction path with
    | nil => cases h
    | cons id rest ih => exact ih h

/-- The same for a single task around. -/
theorem eq_of_within {e : Failure} {id : String} {error : CompilationError}
    (h : e.within id = .compilation error) : ∃ inner,
      e = .compilation { cause := error.cause, taskPath := inner } ∧
        error.taskPath = id :: inner :=
  eq_of_outward (show e.outward [id] = _ from h)

end Failure

/-! ### Tasks one after another -/

/-- **When tasks fail that are compiled one after another**, one of them does, and those before it
    are compiled. -/
theorem tasks_error {δ : Type} {g : Graph} (step : String → GraphTask → δ → Recorded δ)
    {loop : List String → δ → Recorded δ} (hnil : ∀ d, loop [] d = pure d)
    (hcons : ∀ id task rest d, g.task? id = some task →
      (loop (id :: rest) d).result = ((step id task d).within id >>= loop rest).result)
    {order : List String} (horder : ∀ id ∈ order, ∃ task, g.task? id = some task) {d : δ}
    {e : Failure} (h : (loop order d).result = .error e) :
    ∃ before id rest task d₁ e₁, order = before ++ id :: rest ∧
      (loop before d).result = .ok d₁ ∧
      g.task? id = some task ∧ (step id task d₁).result = .error e₁ ∧
        e = e₁.within id := by
  induction order generalizing d with
  | nil =>
    rw [hnil] at h
    cases h
  | cons id rest ih =>
    obtain ⟨task, htask⟩ := horder id List.mem_cons_self
    rw [hcons id task rest d htask] at h
    rcases Recorded.bind_eq_error.mp h with h | ⟨d₁, hd₁, h⟩
    -- the first task fails: none is compiled before it
    · cases hresult : (step id task d).result with
      | ok d₁ =>
        rw [Recorded.within, hresult] at h
        cases h
      | error e₁ =>
        rw [Recorded.within, hresult] at h
        have hbefore : (loop [] d).result = .ok d := by
          rw [hnil]
          rfl
        exact ⟨[], id, rest, task, d, e₁, rfl, hbefore, htask, hresult,
          (Except.error.inj h).symm⟩
    · obtain ⟨before, id', rest', task', d₂, e₁, rfl, hbefore, hfind, herror, he⟩ :=
        ih (fun other hother => horder other (List.mem_cons_of_mem _ hother)) h
      refine ⟨id :: before, id', rest', task', d₂, e₁, rfl, ?_, hfind, herror, he⟩
      rw [hcons id task before d htask, Recorded.result_bind_of_ok hd₁]
      exact hbefore

/-! ### Failures of other kinds -/

/-- A failure that is no compilation error of a kind. -/
def Failure.Avoids (kind : ErrorKind) (e : Failure) : Prop :=
  ∀ path, e.verdict? ≠ some (kind, path)

/-- All failures are that are no compilation errors. -/
theorem isLenient_avoids (kind : ErrorKind) : IsLenient (Failure.Avoids kind) :=
  fun e h path he => by
    rw [h] at he
    cases he

/-- A compilation error of another kind is one. -/
theorem avoids_compilation {kind : ErrorKind} {error : CompilationError}
    (h : error.cause.diagnosis.kind ≠ kind) : (Failure.compilation error).Avoids kind :=
  fun _ he => h (Prod.mk.inj (Option.some.inj he)).1

/-! ### Failures that have nothing to do with the arguments of inputs -/

/-- The kinds of errors that come from the arguments of inputs. -/
def ErrorKind.IsOfInputs : ErrorKind → Prop
  | .missingArgument | .constantArtifact => True
  | _ => False

section OfInputs

variable {kind : ErrorKind} (hkind : kind.IsOfInputs)

include hkind

/-- The tasks of a graph that cannot be put in order. -/
theorem avoids_order (g : Graph) (inputs : List String) :
    FailsOnly (Failure.Avoids kind) (g.order inputs) := by
  intro e he
  obtain ⟨error, rfl, hcause⟩ := order_error he
  refine avoids_compilation ?_
  rintro rfl
  cases hfound : error.cause with
  | missingArgument | constantArtifact =>
    rw [hfound] at hcause
    cases hcause
  | _ =>
    rw [hfound] at hkind
    cases hkind

/-- A command line that there is not. -/
theorem avoids_ofCommandLine : HoldsOfCommandLines (Failure.Avoids kind) := by
  intro cause hcause
  refine avoids_compilation ?_
  rintro rfl
  cases cause with
  | undeclaredInput | undeclaredOutput | runtimeCondition => cases hkind
  | _ => cases hcause

end OfInputs

/-- Nothing is given for an input that needs it. -/
theorem bound_error {α : Type} {input : InputSpec} {given : Option α} {literal : String → α}
    {task : String} {e : Failure} (h : (input.bound given literal task).result = .error e) :
    e = .ofCause (.missingArgument input.name) ∧ input.check given.isSome ≠ .ok () := by
  unfold InputSpec.bound at h
  split at h
  · cases h
  · cases h
  next hdefault =>
    split at h
    · cases h
    next hoptional =>
      refine ⟨(Except.error.inj h).symm, ?_⟩
      rw [InputSpec.check, hdefault, if_neg (by simpa using hoptional)]
      intro he
      cases he

/-- An input that is given nothing. -/
theorem failsOnly_bound {α : Type} {input : InputSpec} {given : Option α}
    {literal : String → α}
    {task : String} (h : p (.ofCause (.missingArgument input.name))) :
    FailsOnly p (input.bound given literal task).result :=
  fun _ he => (bound_error he).1 ▸ h

/-! ### Failures other than that a constant is passed as a file -/

/-- A failure other than that a constant is passed as a file. -/
def Failure.IsOther : Failure → Prop := Failure.Avoids .constantArtifact

/-- All failures are that are no compilation errors. -/
theorem isLenient_isOther : IsLenient Failure.IsOther := isLenient_avoids .constantArtifact

end PipelineCompiler
