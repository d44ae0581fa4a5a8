import PipelineCompiler.CommandLine
import PipelineCompiler.Proofs.CommandLine
import PipelineCompiler.Proofs.Json.Plain
import PipelineCompiler.Proofs.Json.Same

namespace PipelineCompiler

/-!
# Containers of plain data

Where all texts of a component are whole, so is everything that a container is launched with.

* `Component.texts`, `Component.IsWhole` — the texts of a component that get into documents;
* `Accessors.KeepWhole` — references to whole names are whole;
* `commandLine_whole` — so are the texts of a command line;
* `Launch.Plain`, `Launch.Plain.fields` — what a container is launched with is plain data;
* `Launch.keys_fields`, `Launch.textual` — which fields a container has, and that they are made of
  texts.
-/

open Text

/-! ### Texts of components -/

/-- The texts of a component that get into documents: names of inputs and outputs, defaults, and the
    texts of its container. -/
def Component.texts (c : Component) : List String :=
  c.inputNames ++ c.outputNames ++ c.inputs.filterMap (·.default) ++
    match c.implementation with
    | .container container => container.literals
    | .graph _ => []

/-- All of them are whole. -/
def Component.IsWhole (c : Component) : Prop := ∀ text ∈ c.texts, Whole text

instance : DecidablePred Component.IsWhole := fun c => List.decidableBAll Whole c.texts

namespace Component.IsWhole

variable {c : Component} (h : c.IsWhole)
include h

/-- The names of the inputs are whole. -/
theorem input {name : String} (hname : name ∈ c.inputNames) : Whole name :=
  h name (by simp [texts, hname])

/-- The names of the outputs are whole. -/
theorem output {name : String} (hname : name ∈ c.outputNames) : Whole name :=
  h name (by simp [texts, hname])

/-- The defaults are whole. -/
theorem default {input : InputSpec} (hinput : input ∈ c.inputs) {text : String}
    (htext : input.default = some text) : Whole text := by
  refine h text ?_
  have hmem : text ∈ c.inputs.filterMap (·.default) :=
    List.mem_filterMap.mpr ⟨input, hinput, htext⟩
  simp only [texts, List.mem_append, hmem, or_true, true_or]

/-- The texts of the container are whole. -/
theorem literal {container : Container} (himpl : c.implementation = .container container)
    {text : String} (htext : text ∈ container.literals) : Whole text := by
  refine h text ?_
  simp only [texts, himpl, List.mem_append, htext, or_true]

end Component.IsWhole

/-! ### Command lines -/

/-- References to whole names are whole. -/
structure Accessors.KeepWhole (a : Accessors) : Prop where
  parameterValue : ∀ name, Whole name → Whole (a.parameterValue name)
  artifactPath : ∀ name, Whole name → Whole (a.artifactPath name)
  outputPath : ∀ name, Whole name → Whole (a.outputPath name)
  artifactValue : ∀ access ∈ a.artifactValue?, ∀ name, Whole name → Whole (access name)

/-- The texts of a command line are whole. -/
structure CommandLine.IsWhole (line : CommandLine) : Prop where
  command : ∀ tokens ∈ line.command, ∀ t ∈ tokens, Whole t
  args : ∀ tokens ∈ line.args, ∀ t ∈ tokens, Whole t
  env : ∀ entry ∈ line.env, Whole entry.1 ∧ Whole entry.2

/-- The tokens of expansions are whole. -/
theorem matches_whole {x : Expander} (hc : x.component.IsWhole) (ha : x.accessors.KeepWhole) :
    x.Matches .same x Whole fun e _ => ∀ t ∈ e.tokens, Whole t where
  refused _ _ := rfl
  inputs := rfl
  outputs := rfl
  empty := fun _ ht => nomatch ht
  append := by
    intro a b a' b' h h' t ht
    exact (List.mem_append.mp ht).elim (h t) (h' t)
  joined := by
    intro a b h t ht
    obtain rfl := List.mem_singleton.mp ht
    exact whole_join h
  literal := by
    intro text htext t ht
    obtain rfl := List.mem_singleton.mp ht
    exact htext
  value := by
    intro input hinput t ht
    have hparameter := ha.parameterValue input (hc.input hinput)
    unfold Expander.inputValue at ht
    -- An input that is not declared has no accessor to be written.
    split at ht
    next access _ haccess _ =>
      split at ht
      · obtain rfl := List.mem_singleton.mp ht
        exact hparameter
      · obtain rfl := List.mem_singleton.mp ht
        exact ha.artifactValue access haccess input (hc.input hinput)
    next =>
      obtain rfl := List.mem_singleton.mp ht
      exact hparameter
  path := by
    intro input hinput t ht
    obtain rfl := List.mem_singleton.mp ht
    exact ha.artifactPath input (hc.input hinput)
  output := by
    intro output houtput t ht
    obtain rfl := List.mem_singleton.mp ht
    exact ha.outputPath output (hc.output houtput)

/-- **The texts of a command line are whole**, if those of the component are. -/
theorem commandLine_whole {x : Expander} (hc : x.component.IsWhole) (ha : x.accessors.KeepWhole)
    {container : Container} (himpl : x.component.implementation = .container container)
    {line : CommandLine} (h : x.commandLine container = .ok line) : line.IsWhole := by
  rw [commandLine_eq] at h
  obtain ⟨p, hp, rfl⟩ := map_eq_ok.mp h
  obtain ⟨_, -, hcommand, hargs, henv⟩ :=
    (parts_matches (matches_whole hc ha) _ (fun _ => hc.literal himpl) fun _ _ => rfl).exists_ok hp
  refine ⟨fun tokens htokens => ?_, fun tokens htokens => ?_, fun entry hentry => ?_⟩
  · obtain ⟨_, -, rfl⟩ := Option.map_eq_some_iff.mp htokens
    exact hcommand
  · obtain ⟨_, -, rfl⟩ := Option.map_eq_some_iff.mp htokens
    exact hargs
  · obtain ⟨part, hpart, rfl⟩ := List.mem_map.mp hentry
    obtain ⟨-, -, -, hname, htokens⟩ := exists_right_of_mem henv hpart
    exact ⟨hname, whole_join htokens⟩

/-! ### Containers -/

/-- What a container is launched with is plain data. -/
structure Launch.Plain (l : Launch) : Prop where
  image : l.image.Plain
  command : ∀ tokens ∈ l.command, ∀ t ∈ tokens, Whole t
  args : ∀ tokens ∈ l.args, ∀ t ∈ tokens, Whole t
  env : ∀ entry ∈ l.env, Whole entry.1 ∧ Whole entry.2

/-- The fields of an optional list of texts. -/
theorem plainFields_tokens {name : String} (hname : Whole name) {tokens : Option (List String)}
    (h : ∀ found ∈ tokens, ∀ t ∈ found, Whole t) :
    PlainFields (tokens.toList.map fun found => (name, Value.ofTexts found)) := by
  intro field hfield
  obtain ⟨found, hfound, rfl⟩ := List.mem_map.mp hfield
  exact ⟨hname, plain_ofTexts (h found (Option.mem_toList.mp hfound))⟩

/-- **The fields of a container are plain.** -/
theorem Launch.Plain.fields {l : Launch} (h : l.Plain) : PlainFields l.fields := by
  have hkeys : ∀ key ∈ ["image", "command", "args", "env", "name", "value"], Whole key := by
    decide
  have himage : PlainFields [("image", l.image)] := .cons (hkeys _ (by simp)) h.image .nil
  have henv : PlainFields (if l.env.isEmpty then []
      else [("env", .list (l.env.map Launch.envEntry))]) := by
    split
    · exact .nil
    · refine .cons (hkeys _ (by simp)) (.list fun v hv => ?_) .nil
      obtain ⟨entry, hentry, rfl⟩ := List.mem_map.mp hv
      obtain ⟨hname, htext⟩ := h.env entry hentry
      exact PlainFields.plain (.cons (hkeys _ (by simp)) (.str hname)
        (.cons (hkeys _ (by simp)) (.str htext) .nil))
  exact plainFields_append.mpr ⟨plainFields_append.mpr ⟨plainFields_append.mpr ⟨himage,
    plainFields_tokens (hkeys _ (by simp)) h.command⟩,
    plainFields_tokens (hkeys _ (by simp)) h.args⟩, henv⟩

/-- What a component is launched with is plain. -/
theorem launch_plain {c : Component} (hc : c.IsWhole) {container : Container}
    (himpl : c.implementation = .container container) {line : CommandLine} (h : line.IsWhole) :
    (Launch.ofCommandLine container.image line).Plain where
  image := .str (hc.literal himpl List.mem_cons_self)
  command := h.command
  args := h.args
  env := h.env

/-! ### Fields of containers -/

namespace Launch

/-- The fields of a container have different names. -/
theorem keys_fields (l : Launch) :
    (Keyed.keys l.fields).Sublist ["image", "command", "args", "env"] := by
  obtain ⟨image, command, args, env⟩ := l
  cases command with
  | none | some =>
    cases args with
    | none | some =>
      cases env with
      | nil | cons =>
        simp only [Launch.fields, Keyed.keys, Option.toList, List.isEmpty, List.map_cons,
          List.map_nil, List.map_append, if_true, Bool.false_eq_true, if_false]
        decide

/-- An environment variable is made of texts. -/
theorem textual_envEntry (entry : String × String) : (envEntry entry).Textual := by
  refine textual_of_nodup (by simp [Keyed.keys]) fun field hfield => ?_
  simp only [List.mem_cons, List.not_mem_nil, or_false] at hfield
  rcases hfield with rfl | rfl
  · exact .str _
  · exact .str _

/-- The fields of a container are made of texts, its image provided. -/
theorem textual {l : Launch} (himage : l.image.Textual) :
    ∀ field ∈ l.fields, field.2.Textual := by
  intro field hfield
  simp only [Launch.fields, List.mem_append, List.mem_singleton, List.mem_map,
    Option.mem_toList] at hfield
  rcases hfield with ((rfl | ⟨tokens, -, rfl⟩) | ⟨tokens, -, rfl⟩) | henv
  · exact himage
  · exact textual_ofTexts tokens
  · exact textual_ofTexts tokens
  · split at henv
    · cases henv
    · obtain rfl := List.mem_singleton.mp henv
      exact textual_map fun entry _ => textual_envEntry entry

end Launch

end PipelineCompiler
