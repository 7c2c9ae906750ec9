import EntityMapping.Codec.Basic
import EntityMapping.Lifecycle.Hook
/-!
# Entity models

A model says how the entities of one kind are stored: its fields in order with
their document names and types, the discriminator that tells its documents
apart from others, the model it extends, and its hooks.
-/

namespace EntityMapping

/-- A mapped property of an entity. -/
structure Field where
  /-- The name of the property. -/
  name : String
  /-- The key the property is stored under. -/
  documentName : String
  /-- The declared type. -/
  type : FieldType
  /-- Whether the property is the id. -/
  isId : Bool
  /-- Whether null is written even where nulls are left out. -/
  isNullable : Bool
  /-- The codec, once the model is registered. -/
  codec : Option Codec

/-- How the entities of one kind are stored. -/
structure EntityModel where
  /-- The kind. -/
  name : String
  /-- The fields in order. -/
  fields : List Field
  /-- The key of the discriminator, if one is set. -/
  discriminatorKey : Option String
  /-- The value of the discriminator. -/
  discriminator : String
  /-- Whether a discriminator is written and looked for. -/
  usesDiscriminator : Bool
  /-- The name of the model this one extends. -/
  parent : Option String
  /-- The hooks for each point, in the order in which they run. -/
  hooks : HookKind → List Hook

namespace Field

/-- A property stored under its own name. -/
def plain (name : String) (type : FieldType) : Field :=
  ⟨name, name, type, false, false, none⟩

/-- The id property, stored under the key for ids. -/
def id (name : String) (type : FieldType) : Field :=
  ⟨name, "_id", type, true, false, none⟩

/-- The property stored under another key. -/
def storedAs (field : Field) (documentName : String) : Field :=
  { field with documentName := documentName }

/-- The property with nulls always written. -/
def nullable (field : Field) : Field :=
  { field with isNullable := true }

/-- The codec of a property, which it has once its model is registered. -/
def resolved (field : Field) : Except MappingError Codec :=
  match field.codec with
  | some codec => .ok codec
  | none => .error (.noCodec field.type.text)

/-- Whether a value of the property is written: nulls for nullable properties or where
nulls are stored, empty lists and maps where those are stored, and all else. -/
def isWritten (field : Field) (value : Value) (options : Options) : Bool :=
  if value.isNull then field.isNullable || options.storeNulls
  else if value.isEmptyCollection then options.storeEmpties
  else true

end Field

namespace EntityModel

/-- The id field. -/
def idField (model : EntityModel) : Option Field :=
  model.fields.find? fun field => field.isId

/-- The field stored under a key. -/
def fieldStoredAs (model : EntityModel) (documentName : String) : Option Field :=
  model.fields.find? fun field => decide (field.documentName = documentName)

/-- The field of a property name, or else the one stored under that name. -/
def field (model : EntityModel) (name : String) : Option Field :=
  match model.fields.find? fun field => decide (field.name = name) with
  | some found => some found
  | none => model.fieldStoredAs name

/-- The key under which a discriminator is written and looked for. -/
def activeKey (model : EntityModel) : Option String :=
  if model.usesDiscriminator then model.discriminatorKey else none

/-- Whether any hook runs at a point. -/
def hasHooks (model : EntityModel) (kind : HookKind) : Bool :=
  !(model.hooks kind).isEmpty

/-- Whether any hook runs while an entity is written. -/
def hasPersistHooks (model : EntityModel) : Bool :=
  model.hasHooks .prePersist || model.hasHooks .postPersist

/-- Whether any hook runs while an entity is read. -/
def hasLoadHooks (model : EntityModel) : Bool :=
  model.hasHooks .preLoad || model.hasHooks .postLoad

/-- The first key that two fields of a list are stored under. -/
def sharedName (seen : List String) : List Field → Option String
  | [] => none
  | field :: rest =>
    if seen.contains field.documentName then some field.documentName
    else sharedName (field.documentName :: seen) rest

/-- A model has at most one id, stores no two fields under one key, and stores none
under its discriminator key. -/
def check (model : EntityModel) : Except MappingError Unit :=
  let ids := (model.fields.filter fun field => field.isId).length
  if 1 < ids then .error (.configuration (.manyIds model.name ids))
  else
    match sharedName [] model.fields with
    | some key => .error (.configuration (.sharedName model.name key))
    | none =>
      match model.activeKey with
      | none => .ok ()
      | some key =>
        match model.fieldStoredAs key with
        | some field => .error (.configuration (.keyCollision key model.name field.name))
        | none => .ok ()

end EntityModel

end EntityMapping
