import PipelineCompiler.Canonical
import PipelineCompiler.Config.Load
import PipelineCompiler.Journal
import PipelineCompiler.Naming.Policy
import PipelineCompiler.Value.Pairs

namespace PipelineCompiler

/-!
# Contexts and settings

A compilation runs in a context: a target and the effective configuration, neither of which ever
changes.

* `Context`, `Context.create` — a context, and the note with which its journal begins;
* `Settings` — the section of the configuration for the target; a setting is looked up when it is
  needed, and only then has to be there;
* `Settings.policy` — the names of the target;
* `nameOr` — the name of a component, or a stand-in.
-/

/-- A target, the effective configuration and what the caller wants to remember. -/
structure Context where
  target : String
  config : Value
  metadata : Value.Entries := []

/-- The settings of a target. -/
structure Settings where
  entries : Value.Entries

namespace Context

/-- A new context, whose overrides are laid over the default configuration. -/
def create (target : String) (overrides metadata : Value) : Recorded Context := do
  let config ← Config.load none overrides
  let metadata ← Value.mappingOrEmpty metadata
  let hash ← configHash config
  Recorded.log "" "INFO" "compilation started" [("config_hash", .str hash)]
  pure { target, config, metadata }

/-- The digest of the configuration. -/
def hash (c : Context) : Except Failure String := configHash c.config

/-- The section of the configuration for the target. -/
def settings (c : Context) : Except Failure Settings :=
  match c.config with
  | .map entries =>
    match (Value.field? entries c.target).map Value.bare with
    | some (.map found) => .ok { entries := found }
    | _ => .error (.refusal (.unknownSection c.target))
  | _ => .error .illTyped

end Context

namespace Settings

/-- A setting.  It does not matter where it was written. -/
def value (s : Settings) (name : String) : Except Failure Value :=
  match Value.field? s.entries name with
  | some v => .ok v.bare
  | none => .error .illTyped

/-- A setting that is a text. -/
def text (s : Settings) (name : String) : Except Failure String := do
  match ← s.value name with
  | .str found => pure found
  | _ => throw .illTyped

/-- A setting that is a length, or null for none. -/
def length (s : Settings) (name : String) : Except Failure (Option Int) := do
  match ← s.value name with
  | .null => pure none
  | .int i => pure (some i)
  | .bool b => pure (some (if b then 1 else 0))
  | _ => throw .illTyped

/-- The greatest length of names.  It has to be a length when the first name is made. -/
def nameLength (s : Settings) : Except Failure (Option Int) := s.length "max_name_length"

/-- How names are made. -/
def policy (s : Settings) : NamePolicy := { maxLength := s.nameLength.toOption.getD (some 0) }

end Settings

/-- The name of a component, or else a stand-in, as the stem of a name. -/
def nameOr (name : Value) (standIn : String) : Except Failure String :=
  match name.orElse (.str standIn) with
  | .str stem => .ok stem
  | _ => .error .illTyped

end PipelineCompiler
