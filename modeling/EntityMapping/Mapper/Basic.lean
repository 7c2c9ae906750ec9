import EntityMapping.Mapper.Discriminators
import EntityMapping.Model.Basic
/-!
# Mappers

A mapper holds the registered models, the discriminators under which their
documents are recognised, and the interceptors that observe every entity.
-/

namespace EntityMapping

/-- A computation that goes on for ever. -/
def endless (α : Type) [Nonempty α] : α := endless α
partial_fixpoint

/-- The answer of a computation, as a program gets it: where there is none, it waits for ever. -/
def awaited {α : Type} [Nonempty α] : Option α → α
  | some answer => answer
  | none => endless α

/-- A checked collection of models with the settings they share. -/
structure Mapper where
  /-- The settings. -/
  options : Options
  /-- The registered models in the order of registration, one for each name. -/
  models : List EntityModel
  /-- The entities that discriminators stand for. -/
  discriminators : Discriminators
  /-- The keys discriminators may be stored under, the common one first. -/
  discriminatorKeys : List String
  /-- The observers of every entity. -/
  interceptors : List Interceptor
  /-- The names that codecs may refer to. -/
  registry : Registry

namespace Mapper

/-- The model of a name. -/
def model? (mapper : Mapper) (name : String) : Option EntityModel :=
  mapper.models.find? fun model => decide (model.name = name)

/-- The model of a name, which must be registered. -/
def model (mapper : Mapper) (name : String) : Except MappingError EntityModel :=
  match mapper.model? name with
  | some found => .ok found
  | none => .error (.noCodec name)

/-- Whether any interceptor observes the entities. -/
def hasInterceptors (mapper : Mapper) : Bool :=
  !mapper.interceptors.isEmpty

/-- The model that a stored discriminator stands for, met while an entity is read. -/
def modelForDiscriminator (mapper : Mapper) (entity value : String) :
    Except MappingError EntityModel :=
  match (mapper.discriminators.lookup value).bind mapper.model? with
  | some found => .ok found
  | none => .error (.unknownDiscriminator entity value)

/-- Whether a name is met by following parents from a name on, in a number of steps. The walk
goes by names alone and ends with a name that is not registered, a model without a parent, or
the name looked for; where the steps run out first there is no answer. -/
def climb (mapper : Mapper) (sought : String) : Nat → Option String → Option Bool
  | _, none => some false
  | 0, some _ => none
  | steps + 1, some name =>
    if name = sought then some true
    else mapper.climb sought steps ((mapper.model? name).bind EntityModel.parent)

/-- Whether a name is met by following parents from a name on. Names may lead in a circle that
misses it: then the walk has no end, and no answer. A walk that ends passes each registered
model at most once, and at most one other name. -/
def meets (mapper : Mapper) (sought : String) (start : Option String) : Option Bool :=
  mapper.climb sought (mapper.models.length + 1) start

/-- Whether a model extends the one of a name, directly or not. -/
def isSubtype (mapper : Mapper) (model : EntityModel) (ancestor : String) : Option Bool :=
  mapper.meets ancestor model.parent

/-- The models of a list that extend the one of a name. One walk without an end leaves all of them
without an answer. -/
def subtypesAmong (mapper : Mapper) (name : String) : List EntityModel → Option (List EntityModel)
  | [] => some []
  | model :: rest => do
    let below ← mapper.isSubtype model name
    let others ← mapper.subtypesAmong name rest
    pure (if below then model :: others else others)

/-- The models that extend the one of a name, in the order of their names, if the walks that find
them end. -/
def subtypes? (mapper : Mapper) (name : String) : Option (List EntityModel) := do
  let found ← mapper.subtypesAmong name mapper.models
  pure (found.mergeSort fun left right => decide (¬ right.name < left.name))

/-- The models that extend the one of a name, as a program asks for them. -/
def subtypes (mapper : Mapper) (name : String) : List EntityModel :=
  awaited (mapper.subtypes? name)

/-- The hooks that run at a point for a model: its own, then the interceptors. -/
def hooksAt (mapper : Mapper) (model : EntityModel) (kind : HookKind) : List Hook :=
  model.hooks kind ++ mapper.interceptors.map fun interceptor => interceptor kind

end Mapper

end EntityMapping
