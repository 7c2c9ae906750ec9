import EntityMapping.Proofs.Decoding.Kind
import EntityMapping.Proofs.Encoding.Stored
/-!
# Mappers without hooks

Where no model has hooks and nothing observes the mapper, an entity is stored by its
fields alone and read by its fields alone.
-/

namespace EntityMapping

/-- A mapper without interceptors whose models have no hooks. -/
structure Mapper.Silent (mapper : Mapper) : Prop where
  /-- No interceptor observes the entities. -/
  unobserved : mapper.interceptors = []
  /-- No model has a hook. -/
  unhooked : ∀ model ∈ mapper.models, ∀ kind, model.hooks kind = []

namespace Mapper.Silent

variable {context : MappingContext} {model : EntityModel}

/-- No interceptor is there. -/
theorem hasInterceptors {mapper : Mapper} (silent : mapper.Silent) :
    mapper.hasInterceptors = false := by
  simp [Mapper.hasInterceptors, silent.unobserved]

/-- No document is taken as a whole. -/
theorem needsHooks (silent : context.mapper.Silent) (registered : model ∈ context.mapper.models) :
    Decoding.needsHooks context model = false := by
  simp [Decoding.needsHooks, silent.hasInterceptors, EntityModel.hasLoadHooks,
    EntityModel.hasHooks, silent.unhooked model registered]

/-- An entity is stored by its fields alone. -/
theorem ofModel (silent : context.mapper.Silent) (registered : model ∈ context.mapper.models)
    (entity : Entity) (forms : Keyed PropertyForm) :
    Stored.ofModel context model entity forms =
      Stored.entries context.mapper.options model forms [] := by
  have none : (model.hasPersistHooks || context.mapper.hasInterceptors) = false := by
    simp [silent.hasInterceptors, EntityModel.hasPersistHooks, EntityModel.hasHooks,
      silent.unhooked model registered]
  rw [Stored.ofModel, none]
  rfl

/-- An entity is read by the fields of the model chosen for its document. -/
theorem entity (silent : context.mapper.Silent) (registered : model ∈ context.mapper.models)
    (child : Codec → Bson → SessionM Value) (stored : List (String × Bson)) :
    Meaning.entity context child model false stored = (do
      let chosen ← SessionM.ofExcept (Decoding.modelOfDocument context.mapper model stored)
      Meaning.properties child chosen stored) := by
  rw [Meaning.entity, silent.needsHooks registered]
  refine (Meaning.chosen_registered registered stored).bind_congr fun chosen known => ?_
  rw [silent.needsHooks known]
  rfl

end Mapper.Silent

end EntityMapping
