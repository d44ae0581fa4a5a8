import PipelineCompiler.Failure.Basic

namespace PipelineCompiler.Config

/-!
# Merging configurations

An override is laid over a base: mappings are merged key by key, everything else is replaced.
A value is only replaced by one of its own type, unless it is null.

Configurations are keyed by texts.  Other keys, which a file may have, have a place in a path by
their plain form, and that is only defined here for keys that are shown (`Value.isShown`).  How deep
the interpreter lets a merge or a copy of a value go is no part of it: files are not read any deeper
than `Json.depthLimit` and `Yaml.Reader.depthLimit` allow, and overrides are given as values.

* `replaceValue` — the replacement of the value under a path of keys;
* `mergeValue`, `mergeEntries` — the merge below a path;
* `merge` — the merge of two whole configurations.
-/

/-- Replaces the value under a path. -/
def replaceValue (path : List String) (base override : Value) : Except ConfigError Value :=
  if base.typeName = "NoneType" ∨ base.typeName = override.typeName then .ok override
  else .error (.typeConflict path base.typeName override.typeName)

mutual

/-- Lays an override over the value under a path. -/
def mergeValue (path : List String) (base : Value) : Value → Except ConfigError Value
  | .map entries =>
    match base.bare with
    | .map baseEntries => (mergeEntries path baseEntries entries).map .map
    | _ => replaceValue path base (.map entries)
  | .placed place override =>
    if base.isMapping && override.isMapping then mergeValue path base override
    else replaceValue path base (.placed place override)
  | override => replaceValue path base override

/-- Lays the entries of an override over those of the mapping under a path, one after
    another. -/
def mergeEntries (path : List String) (base : Value.Entries) :
    List (Value × Value) → Except ConfigError Value.Entries
  | [] => .ok base
  | (key, override) :: rest =>
    match Value.get? base key with
    | none => mergeEntries path (Value.put base key override) rest
    | some found => do
      let merged ← mergeValue (path ++ [key.text]) found override
      mergeEntries path (Value.put base key merged) rest

end

/-- Lays an override over a configuration. -/
def merge (base override : Value) : Except ConfigError Value :=
  match base.bare, override.bare with
  | .map base, .map override => (mergeEntries [] base override).map .map
  | _, _ => .error (.rootsNotMappings base.typeName override.typeName)

end PipelineCompiler.Config
