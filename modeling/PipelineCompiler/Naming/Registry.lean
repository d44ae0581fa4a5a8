import PipelineCompiler.Journal
import PipelineCompiler.Naming.Allocator

namespace PipelineCompiler

/-!
# Registries

A registry keeps the parts of a document under names of its own making.  Equal parts are kept
once.

* `Registry` — an allocator, and the parts by name in the order in which they came;
* `Registry.reserve`, `Registry.define` — a name for a part that comes later, and the part;
* `Registry.intern` — the name of a part, which is added when it is new.
-/

/-- Parts of a document by name. -/
structure Registry (α : Type) where
  names : NameAllocator
  entries : Keyed α := []

namespace Registry

variable {α : Type}

/-- A registry without parts. -/
def empty (policy : NamePolicy) : Registry α := { names := { policy } }

/-- A new name for a part that comes later. -/
def reserve (r : Registry α) (stem : String) : Except Failure (String × Registry α) := do
  let (name, names) ← r.names.reserve stem
  pure (name, { r with names })

/-- Adds a part under a name that was reserved for it. -/
def define (r : Registry α) (name : String) (part : α) : Registry α :=
  { r with entries := Keyed.put r.entries name part }

/-- The name of a part, whether it is new, and the registry with it.  Parts are equal when their
    records are.  The stem is asked for when the part is new. -/
def intern (r : Registry α) (record : α → Value) (stem : Except Failure String) (part : α) :
    Recorded (String × Bool × Registry α) := do
  let key ← Recorded.digest (structuralText r.names.nameField (record part))
  let (name, names) ← r.names.allocateFor stem key
  if Keyed.has r.entries name then pure (name, false, { r with names })
  else pure (name, true, { names, entries := r.entries ++ [(name, part)] })

end Registry
end PipelineCompiler
