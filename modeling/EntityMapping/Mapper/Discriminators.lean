import EntityMapping.Keyed
import EntityMapping.Mapping.Error
/-!
# Discriminators

A table from stored discriminator values to the entities they stand for. A
value stands for at most one entity.
-/

namespace EntityMapping

/-- The entities that discriminator values stand for. -/
structure Discriminators where
  /-- The entity for each value. -/
  entries : Keyed String

namespace Discriminators

/-- The table without values. -/
def empty : Discriminators := ⟨[]⟩

/-- The entity that a value stands for. -/
def lookup (table : Discriminators) (value : String) : Option String :=
  Keyed.get? value table.entries

/-- Let a value stand for an entity; it must not stand for another one. -/
def register (table : Discriminators) (value entity : String) :
    Except MappingError Discriminators :=
  match table.lookup value with
  | some known =>
    if known = entity then .ok table
    else .error (.configuration (.sharedDiscriminator value known entity))
  | none => .ok ⟨Keyed.insert value entity table.entries⟩

/-- The count of values. -/
def size (table : Discriminators) : Nat := table.entries.length

end Discriminators

end EntityMapping
