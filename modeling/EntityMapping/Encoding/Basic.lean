import EntityMapping.Mapper.Basic
import EntityMapping.Stream.Writer
/-!
# Encoding entities

An entity is written as a document: its id, its discriminator, then its other
properties in the order of the model. An entity of another kind than declared
is written by the model of its own kind. Where hooks or interceptors run, the
properties are written over the document that the first hooks leave, and the
last hooks may change the whole before it is placed.
-/

namespace EntityMapping

/-- The state of an encoding: the writer, and what hooks leave behind. -/
structure EncodeState where
  /-- The writer at its present position. -/
  writer : Writer
  /-- The session that hooks run in. -/
  session : Session

/-- An encoding step: a result or a failure, and the state after it. -/
abbrev EncodeM := ExceptT MappingError (StateM EncodeState)

/-- What an encoding runs with. -/
structure MappingContext where
  /-- The mapper. -/
  mapper : Mapper
  /-- What its hooks may ask for. -/
  services : Services

namespace EncodeM

/-- A writing step as an encoding step. -/
def ofWrite {α : Type} (action : WriteM α) : EncodeM α := fun state =>
  let (outcome, writer) := action.run.run state.writer
  (outcome.mapError MappingError.document, { state with writer := writer })

/-- A session step as an encoding step. -/
def ofSession {α : Type} (action : SessionM α) : EncodeM α := fun state =>
  let (outcome, session) := action.run.run state.session
  (outcome, { state with session := session })

/-- Lift the failure of a computation. -/
def ofExcept {α : Type} : Except MappingError α → EncodeM α
  | .ok value => pure value
  | .error cause => throw cause

/-- Write a value. -/
def writeValue (value : Bson) : EncodeM Unit := ofWrite (Writer.writeValue value)

/-- Write a document around what a body writes. -/
def inDocument (body : EncodeM Unit) : EncodeM Unit := do
  ofWrite Writer.startDocument
  body
  ofWrite Writer.endDocument

/-- Write an array around what a body writes. -/
def inArray (body : EncodeM Unit) : EncodeM Unit := do
  ofWrite Writer.startArray
  body
  ofWrite Writer.endArray

/-- The document that a body writes into a writer of its own. -/
def detached (start : Writer) (body : EncodeM Unit) : EncodeM Document := fun state =>
  let (outcome, inner) := body.run.run ⟨start, state.session⟩
  let result : Except MappingError Document :=
    match outcome with
    | .ok _ => inner.writer.document?.mapError MappingError.document
    | .error cause => .error cause
  (result, { state with session := inner.session })

/-- A step whose failure is reported as the failure of a field. -/
def forField {α : Type} (entity field : String) (action : EncodeM α) : EncodeM α :=
  tryCatch action fun cause => throw (.encoding entity field cause)

end EncodeM

/-- A property ready to be written: its value, and how it is written by a codec. -/
abbrev PropertyWriter := Value × (Codec → EncodeM Unit)

namespace Encoding

/-- The failure of a value that does not fit its codec. -/
def unexpected {α : Type} (codec : Codec) (value : Value) : EncodeM α :=
  throw (.unexpectedValue codec.fieldType value.kindName)

/-- The document value of a value of a scalar type. -/
def scalar? : ScalarType → Value → Option Bson
  | .bool, .bool value => some (.boolean value)
  | .int32, .int32 value => some (.int32 value)
  | .int64, .int64 value => some (.int64 value)
  | .double, .double value => some (.double value)
  | .string, .string value => some (.string value)
  | .objectId, .objectId value => some (.objectId value)
  | .dateTime, .dateTime millis => some (.dateTime millis)
  | _, _ => none

/-- The document value of a value without parts. -/
def plain? : Value → Option Bson
  | .null => some .null
  | .bool value => some (.boolean value)
  | .int32 value => some (.int32 value)
  | .int64 value => some (.int64 value)
  | .double value => some (.double value)
  | .string value => some (.string value)
  | .objectId value => some (.objectId value)
  | .dateTime millis => some (.dateTime millis)
  | .other raw => some raw
  | _ => none

/-- Write a value without parts. -/
def writePlain (value : Value) (codec : Codec) : EncodeM Unit :=
  let found : Option Bson :=
    match codec with
    | .scalar type => scalar? type value
    | .any => plain? value
    | _ => none
  match found with
  | some content => EncodeM.writeValue content
  | none => unexpected codec value

/-- Write one property, if it is to be written at all. -/
def writeProperty (context : MappingContext) (model : EntityModel)
    (properties : Keyed PropertyWriter) (field : Field) : EncodeM Unit :=
  let property := Keyed.get? field.name properties
  let value := (property.map Prod.fst).getD .null
  if field.isWritten value context.mapper.options then do
    EncodeM.ofWrite (Writer.writeName field.documentName)
    match property with
    | none => EncodeM.writeValue .null
    | some (.null, _) => EncodeM.writeValue .null
    | some (_, write) => do
      let codec ← EncodeM.ofExcept field.resolved
      EncodeM.forField model.name field.name (write codec)
  else pure ()

/-- Write properties one after the other. -/
def writeProperties (context : MappingContext) (model : EntityModel)
    (properties : Keyed PropertyWriter) : List Field → EncodeM Unit
  | [] => pure ()
  | field :: rest => do
    writeProperty context model properties field
    writeProperties context model properties rest

/-- Write the discriminator, if the model uses one. -/
def writeDiscriminator (model : EntityModel) : EncodeM Unit :=
  match model.activeKey with
  | some key => EncodeM.ofWrite (Writer.writeField key (.string model.discriminator))
  | none => pure ()

/-- Write an entity as a document, without hooks. -/
def writeEntries (context : MappingContext) (model : EntityModel)
    (properties : Keyed PropertyWriter) : EncodeM Unit :=
  EncodeM.inDocument do
    writeProperties context model properties model.idField.toList
    writeDiscriminator model
    writeProperties context model properties (model.fields.filter fun field => !field.isId)

/-- Run the hooks of a point on a document. -/
def runHooks (context : MappingContext) (model : EntityModel) (kind : HookKind)
    (entity : Entity) (document : Document) : SessionM Document :=
  Hook.runAll context.services kind model.name entity (context.mapper.hooksAt model kind) document

/-- Write an entity with hooks: over the document that the first hooks leave, and as
the last hooks leave it. -/
def writeWithHooks (context : MappingContext) (model : EntityModel) (entity : Entity)
    (properties : Keyed PropertyWriter) : EncodeM Unit := do
  let seed ← EncodeM.ofSession (runHooks context model .prePersist entity [])
  let document ←
    EncodeM.detached (Writer.seeded seed) (writeEntries context model properties)
  let document ← EncodeM.ofSession (runHooks context model .postPersist entity document)
  EncodeM.writeValue (.document document)

/-- The model that writes an entity declared as another: that of its own kind. -/
def modelFor (mapper : Mapper) (declared : EntityModel) (kind : String) :
    Except MappingError EntityModel :=
  if FieldType.equivalent (.entity declared.name) (.entity kind) then .ok declared
  else mapper.model kind

/-- A model writes the entities declared as it that carry its name. -/
theorem modelFor_eq_ite (mapper : Mapper) (declared : EntityModel) (kind : String) :
    modelFor mapper declared kind =
      if declared.name = kind then .ok declared else mapper.model kind := by
  rw [modelFor, FieldType.equivalent_entity]
  simp only [decide_eq_true_eq]

/-- Write an entity declared as a model. -/
def writeEntity (context : MappingContext) (declared : EntityModel) (entity : Entity)
    (properties : Keyed PropertyWriter) : EncodeM Unit := do
  let model ← EncodeM.ofExcept (modelFor context.mapper declared entity.kind)
  if model.hasPersistHooks || context.mapper.hasInterceptors then
    writeWithHooks context model entity properties
  else writeEntries context model properties

mutual

/-- Write a value by a codec. -/
def writeValue (context : MappingContext) : Value → Codec → EncodeM Unit
  | .array items, codec =>
    match codec with
    | .list element => EncodeM.inArray (writeItems context items element)
    | .any => EncodeM.inArray (writeItems context items .any)
    | other => unexpected other (.array items)
  | .map entries, codec =>
    match codec with
    | .map value => EncodeM.inDocument (writeNamed context entries value)
    | .any => EncodeM.inDocument (writeNamed context entries .any)
    | other => unexpected other (.map entries)
  | .entity kind properties, codec =>
    match codec with
    | .entity name => do
      let declared ← EncodeM.ofExcept (context.mapper.model name)
      writeEntity context declared ⟨kind, properties⟩ (propertyWriters context properties)
    | .any => do
      let declared ← EncodeM.ofExcept (context.mapper.model kind)
      writeEntity context declared ⟨kind, properties⟩ (propertyWriters context properties)
    | other => unexpected other (.entity kind properties)
  | value, codec => writePlain value codec

/-- Write the items of a list; nulls are written as they are. -/
def writeItems (context : MappingContext) : List Value → Codec → EncodeM Unit
  | [], _ => pure ()
  | item :: rest, codec => do
    if item.isNull then EncodeM.writeValue .null else writeValue context item codec
    writeItems context rest codec

/-- Write the entries of a map; nulls are written as they are. -/
def writeNamed (context : MappingContext) : List (String × Value) → Codec → EncodeM Unit
  | [], _ => pure ()
  | (key, entry) :: rest, codec => do
    EncodeM.ofWrite (Writer.writeName key)
    if entry.isNull then EncodeM.writeValue .null else writeValue context entry codec
    writeNamed context rest codec

/-- The properties of an entity, ready to be written. -/
def propertyWriters (context : MappingContext) :
    List (String × Value) → List (String × PropertyWriter)
  | [] => []
  | (name, value) :: rest =>
    (name, (value, fun codec => writeValue context value codec)) :: propertyWriters context rest

end

/-- Write an entity declared as a model, without changing the entity. -/
def write (context : MappingContext) (declared : EntityModel) (entity : Entity) : EncodeM Unit :=
  writeEntity context declared entity (propertyWriters context entity.properties)

/-- Whether a top-level entity of a model is to be given an id. -/
def needsId (options : Options) (model : EntityModel) (entity : Entity) : Option Field :=
  if options.generateIds then
    match model.idField with
    | some field =>
      if field.type.acceptsObjectId && (entity.valueOf field.name).isNull then some field
      else none
    | none => none
  else none

/-- Give a top-level entity an id if it needs one. -/
def assignId (options : Options) (model : EntityModel) (entity : Entity) (session : Session) :
    Entity × Session :=
  match needsId options model entity with
  | some field =>
    let (id, session) := session.draw
    (entity.set field.name (.objectId id), session)
  | none => (entity, session)

end Encoding

/-- The outcome of encoding an entity: a document or a failure, the entity with the
id it may have been given, and the session after it. -/
structure Encoded where
  /-- The document. -/
  outcome : Except MappingError Document
  /-- The entity. -/
  entity : Entity
  /-- The session. -/
  session : Session

namespace Encoding

/-- The document that an encoding step writes into an empty writer. -/
def documentOf (action : EncodeM Unit) (session : Session) :
    Except MappingError Document × Session :=
  let (outcome, state) := (EncodeM.detached Writer.empty action).run.run ⟨Writer.empty, session⟩
  (outcome, state.session)

/-- Encode an entity declared as a model. As the document of a collection it is given
an id first, which it keeps even if the encoding fails. -/
def encode (context : MappingContext) (declared : EntityModel) (collectible : Bool)
    (entity : Entity) (session : Session) : Encoded :=
  match modelFor context.mapper declared entity.kind with
  | .error cause => ⟨.error cause, entity, session⟩
  | .ok model =>
    let (entity, session) :=
      if collectible then assignId context.mapper.options model entity session
      else (entity, session)
    let (outcome, session) := documentOf (write context model entity) session
    ⟨outcome, entity, session⟩

end Encoding

end EntityMapping
