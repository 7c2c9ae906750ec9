import EntityMapping.Mapper.Basic
/-!
# Assembling a mapper

A plan lists the models, aliases and interceptors of a mapper. Assembling it
checks the options and every model, gives every field its codec, and registers
discriminators and aliases.
-/

namespace EntityMapping

/-- What a mapper is to be made of. -/
structure MapperPlan where
  /-- The settings. -/
  options : Options
  /-- The models in the order of registration. -/
  models : List EntityModel
  /-- Further discriminator values with the entities they stand for. -/
  aliases : List (String × String)
  /-- The observers of every entity. -/
  interceptors : List Interceptor

namespace EntityModel

/-- The model with the common discriminator key where it has none of its own. -/
def withDefaultKey (model : EntityModel) (key : String) : EntityModel :=
  match model.discriminatorKey with
  | some _ => model
  | none => { model with discriminatorKey := some key }

/-- A field of an entity with its codec. -/
def resolveField (registry : Registry) (entity : String) (field : Field) :
    Except MappingError Field :=
  match registry.codec field.type with
  | .ok codec => .ok { field with codec := some codec }
  | .error (.noCodec typeName) =>
    .error (.configuration (.unknownType entity field.name typeName))
  | .error other => .error other

/-- The model with a codec for every field. -/
def resolve (model : EntityModel) (registry : Registry) : Except MappingError EntityModel := do
  let fields ← model.fields.mapM (resolveField registry model.name)
  pure { model with fields := fields }

end EntityModel

namespace Mapper

/-- Add a key to the known ones unless it is there. -/
def addKey (keys : List String) (key : String) : List String :=
  if keys.contains key then keys else keys ++ [key]

/-- A mapper without models. -/
def bare (plan : MapperPlan) : Mapper :=
  { options := plan.options
    models := []
    discriminators := .empty
    discriminatorKeys := [plan.options.discriminatorKey]
    interceptors := plan.interceptors
    registry := ⟨plan.models.map EntityModel.name⟩ }

/-- Register the discriminator and its key, if the model uses one. -/
def withDiscriminator (mapper : Mapper) (model : EntityModel) : Except MappingError Mapper :=
  if model.usesDiscriminator then do
    let table ← mapper.discriminators.register model.discriminator model.name
    pure { mapper with
      discriminators := table
      discriminatorKeys :=
        match model.discriminatorKey with
        | some key => addKey mapper.discriminatorKeys key
        | none => mapper.discriminatorKeys }
  else pure mapper

/-- Register a model. -/
def withModel (mapper : Mapper) (model : EntityModel) : Except MappingError Mapper := do
  if (mapper.model? model.name).isSome then
    throw (.configuration (.registeredTwice model.name))
  let keyed := model.withDefaultKey mapper.options.discriminatorKey
  keyed.check
  let resolved ← keyed.resolve mapper.registry
  let mapper ← mapper.withDiscriminator resolved
  pure { mapper with models := mapper.models ++ [resolved] }

/-- Register a further discriminator value, which must stand for a registered model. -/
def withAlias (mapper : Mapper) (alternative : String × String) : Except MappingError Mapper :=
  let (value, entity) := alternative
  match mapper.model? entity with
  | none => .error (.nonEntityDiscriminator value entity)
  | some _ => do
    let table ← mapper.discriminators.register value entity
    pure { mapper with discriminators := table }

end Mapper

namespace MapperPlan

/-- The mapper of a plan, if the plan is sound. -/
def assemble (plan : MapperPlan) : Except MappingError Mapper :=
  match plan.options.check with
  | .error fault => .error (.configuration (.options fault))
  | .ok _ => do
    let mapper ← plan.models.foldlM Mapper.withModel (Mapper.bare plan)
    plan.aliases.foldlM Mapper.withAlias mapper

end MapperPlan

end EntityMapping
