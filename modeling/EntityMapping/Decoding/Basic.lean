import EntityMapping.Conversion
import EntityMapping.Encoding.Basic
import EntityMapping.Stream.Reader
/-!
# Decoding entities

A document is read as an entity of the model that its discriminator names, or
of the declared one. Entries are matched with fields by their keys; entries
that belong to no field are skipped. A stored value of another type than
declared is read again for what it is and converted. Where hooks or
interceptors run, the document is taken as a whole so that they can change it.
-/

namespace EntityMapping

/-- The state of a decoding: the reader, and what hooks leave behind. -/
structure DecodeState where
  /-- The reader at its present position. -/
  reader : Reader
  /-- The session that hooks run in. -/
  session : Session

/-- A decoding step: a result or a failure, and the state after it. -/
abbrev DecodeM := ExceptT MappingError (StateM DecodeState)

namespace DecodeM

/-- A reading step as a decoding step. -/
def ofRead {α : Type} (action : ReadM α) : DecodeM α := fun state =>
  let (outcome, reader) := action.run.run state.reader
  (outcome.mapError MappingError.document, { state with reader := reader })

/-- A session step as a decoding step. -/
def ofSession {α : Type} (action : SessionM α) : DecodeM α := fun state =>
  let (outcome, session) := action.run.run state.session
  (outcome, { state with session := session })

/-- Lift the failure of a computation. -/
def ofExcept {α : Type} : Except MappingError α → DecodeM α
  | .ok value => pure value
  | .error cause => throw cause

/-- The outcome of a step, which itself does not fail. -/
def attempt {α : Type} (action : DecodeM α) : DecodeM (Except MappingError α) := fun state =>
  let (outcome, state) := action.run.run state
  (.ok outcome, state)

/-- The present position. -/
def mark : DecodeM Reader := do return (← get).reader

/-- Go back to a position. -/
def reset (position : Reader) : DecodeM Unit :=
  modify fun state => { state with reader := position }

/-- Run a step on another reader and come back to the present one. -/
def detached {α : Type} (reader : Reader) (action : DecodeM α) : DecodeM α := fun state =>
  let (outcome, inner) := action.run.run ⟨reader, state.session⟩
  (outcome, { state with session := inner.session })

end DecodeM

namespace Decoding

/-- Fail unless a value of an element type comes next; nothing is consumed. -/
def expectType (expected : ElementType) : DecodeM Unit := do
  let found ← DecodeM.ofRead Reader.currentType
  if found = expected then pure () else throw (.document (.typeMismatch expected found))

/-- Read a value of a scalar type. -/
def readScalar (type : ScalarType) : DecodeM Value :=
  let element : ElementType :=
    match type with
    | .bool => .boolean
    | .int32 => .int32
    | .int64 => .int64
    | .double => .double
    | .string => .string
    | .objectId => .objectId
    | .dateTime => .dateTime
  Value.ofBson <$> DecodeM.ofRead (Reader.readTyped element)

/-- Read a null, or a value as a child step reads it. -/
def readNullable (kind : ElementType) (child : DecodeM Value) : DecodeM Value :=
  if kind = .null then do
    DecodeM.ofRead Reader.readNull
    pure .null
  else child

/-- Read items up to the end of the array, at most as many as tokens are left. -/
def readItems (child : ElementType → DecodeM Value) : Nat → List Value → DecodeM (List Value)
  | 0, _ => throw .nestedTooDeep
  | fuel + 1, items => do
    match ← DecodeM.ofRead Reader.entryType with
    | none => pure items
    | some kind => do
      let item ← child kind
      readItems child fuel (items ++ [item])

/-- Read an array, item by item. -/
def readArray (child : ElementType → DecodeM Value) : DecodeM Value := do
  DecodeM.ofRead (Reader.expect .startArray)
  let items ← readItems child ((← get).reader.rest.length + 1) []
  DecodeM.ofRead (Reader.expect .endArray)
  pure (.array items)

/-- Read entries up to the end of the document, at most as many as tokens are left. -/
def readEntries (child : ElementType → DecodeM Value) :
    Nat → Keyed Value → DecodeM (Keyed Value)
  | 0, _ => throw .nestedTooDeep
  | fuel + 1, entries => do
    match ← DecodeM.ofRead Reader.entryType with
    | none => pure entries
    | some kind => do
      let key ← DecodeM.ofRead Reader.readName
      let entry ← child kind
      readEntries child fuel (Keyed.insert key entry entries)

/-- Read a document as a map, entry by entry. -/
def readMap (child : ElementType → DecodeM Value) : DecodeM Value := do
  DecodeM.ofRead (Reader.expect .startDocument)
  let entries ← readEntries child ((← get).reader.rest.length + 1) []
  DecodeM.ofRead (Reader.expect .endDocument)
  pure (.map entries)

/-- Read the value of a field into an entity. A value of another type is read again
for what it is and converted. -/
def readField (child : Codec → DecodeM Value) (model : EntityModel) (field : Field)
    (kind : ElementType) (entity : Entity) : DecodeM Entity :=
  if kind = .null then do
    DecodeM.ofRead Reader.readNull
    pure (entity.set field.name .null)
  else do
    let position ← DecodeM.mark
    let codec ← DecodeM.ofExcept field.resolved
    match ← DecodeM.attempt (child codec) with
    | .ok value => pure (entity.set field.name value)
    | .error cause =>
      if cause.isTypeMismatch then do
        DecodeM.reset position
        let raw ← child .any
        match convert field.type raw with
        | .ok value => pure (entity.set field.name value)
        | .error cause => throw (.decoding model.name field.name cause)
      else throw (.decoding model.name field.name cause)

/-- Read the fields of an entity up to the end of its document. The discriminator
and entries without a field are skipped. -/
def readFields (child : Codec → DecodeM Value) (model : EntityModel) :
    Nat → Entity → DecodeM Entity
  | 0, _ => throw .nestedTooDeep
  | fuel + 1, entity => do
    match ← DecodeM.ofRead Reader.entryType with
    | none => pure entity
    | some kind => do
      let name ← DecodeM.ofRead Reader.readName
      if model.activeKey = some name then do
        DecodeM.ofRead Reader.skipValue
        readFields child model fuel entity
      else
        match model.fieldStoredAs name with
        | some field => do
          let entity ← readField child model field kind entity
          readFields child model fuel entity
        | none => do
          DecodeM.ofRead Reader.skipValue
          readFields child model fuel entity

/-- Read a document as an entity of a model, without hooks. -/
def readProperties (child : Codec → DecodeM Value) (model : EntityModel) : DecodeM Entity := do
  DecodeM.ofRead (Reader.expect .startDocument)
  let fuel := (← get).reader.rest.length + 1
  let entity ← readFields child model fuel (Entity.empty model.name)
  DecodeM.ofRead (Reader.expect .endDocument)
  pure entity

/-- Look for a text under a key, entry by entry. -/
def probeEntries (key : String) : Nat → ReadM (Option String)
  | 0 => throw .endOfStream
  | fuel + 1 => do
    match ← Reader.entryType with
    | none => pure none
    | some _ => do
      let name ← Reader.readName
      if name = key then some <$> Reader.readString
      else do
        Reader.skipValue
        probeEntries key fuel

/-- Look for a text under a key of the document that comes next. -/
def probe (key : String) : ReadM (Option String) := do
  Reader.expect .startDocument
  probeEntries key ((← get).rest.length + 1)

/-- The model that the discriminator of the next document names, or the declared one;
the reader stays where it is. -/
def resolveModel (mapper : Mapper) (declared : EntityModel) : DecodeM EntityModel :=
  match declared.activeKey with
  | none => pure declared
  | some key => do
    let position ← DecodeM.mark
    let probed ← DecodeM.attempt (DecodeM.ofRead (probe key))
    DecodeM.reset position
    match probed with
    | .ok (some value) => DecodeM.ofExcept (mapper.modelForDiscriminator declared.name value)
    | .ok none => pure declared
    | .error cause => throw (.decoding declared.name key cause)

/-- The model that the discriminator of a document names, or the declared one. -/
def modelOfDocument (mapper : Mapper) (declared : EntityModel) (document : Document) :
    Except MappingError EntityModel :=
  match declared.activeKey with
  | none => .ok declared
  | some key =>
    match Keyed.get? key document with
    | some (.string value) => mapper.modelForDiscriminator declared.name value
    | some other =>
      .error (.decoding declared.name key (.document (.typeMismatch .string other.elementType)))
    | none => .ok declared

/-- Read a document as an entity with hooks: they see and change the whole document
before it is read, and see it again with the finished entity. -/
def readWithHooks (context : MappingContext) (child : Codec → DecodeM Value)
    (declared : EntityModel) (checked : Bool) : DecodeM Entity := do
  let stored ← DecodeM.ofRead Reader.readDocument
  let model ←
    if checked then pure declared
    else DecodeM.ofExcept (modelOfDocument context.mapper declared stored)
  let document ← DecodeM.ofSession
    (Encoding.runHooks context model .preLoad (Entity.empty model.name) stored)
  let entity ← DecodeM.detached (Reader.ofDocument document) (readProperties child model)
  discard (DecodeM.ofSession (Encoding.runHooks context model .postLoad entity document))
  pure entity

/-- Whether the whole document of a model is taken for hooks. -/
def needsHooks (context : MappingContext) (model : EntityModel) : Bool :=
  model.hasLoadHooks || context.mapper.hasInterceptors

/-- Read a document as an entity declared as a model. The discriminator is looked for
unless it was checked before. -/
def readEntity (context : MappingContext) (child : Codec → DecodeM Value)
    (declared : EntityModel) (checked : Bool) : DecodeM Entity :=
  if needsHooks context declared then readWithHooks context child declared checked
  else if checked then readProperties child declared
  else do
    let model ← resolveModel context.mapper declared
    if needsHooks context model then readWithHooks context child model true
    else readProperties child model

/-- The model whose discriminator a document carries under the key of that model. -/
def recognise (mapper : Mapper) (document : Document) : Option EntityModel :=
  mapper.discriminatorKeys.findSome? fun key => do
    let value ← Document.text? key document
    let name ← mapper.discriminators.lookup value
    let model ← mapper.model? name
    if model.discriminatorKey = some key then some model else none

/-- Read a value for what it is: a document with a known discriminator is an entity,
any other document a map. -/
def readAny (context : MappingContext) (child : Codec → DecodeM Value) : DecodeM Value := do
  match ← DecodeM.ofRead Reader.currentType with
  | .embeddedDocument => do
    let position ← DecodeM.mark
    let document ← DecodeM.ofRead Reader.readDocument
    match recognise context.mapper document with
    | some model => do
      DecodeM.reset position
      Value.ofEntity <$> readEntity context child model false
    | none => pure (Value.ofBson (.document document))
  | .array => readArray fun _ => child .any
  | _ => Value.ofBson <$> DecodeM.ofRead Reader.readValue

/-- Read a value by a codec, at most the given count of levels deep. -/
def readValue (context : MappingContext) : Nat → Codec → DecodeM Value
  | 0, _ => throw .nestedTooDeep
  | depth + 1, codec =>
    match codec with
    | .scalar type => readScalar type
    | .list element => do
      expectType .array
      readArray fun kind => readNullable kind (readValue context depth element)
    | .map value => do
      expectType .embeddedDocument
      readMap fun kind => readNullable kind (readValue context depth value)
    | .entity name => do
      expectType .embeddedDocument
      let declared ← DecodeM.ofExcept (context.mapper.model name)
      Value.ofEntity <$> readEntity context (readValue context depth) declared false
    | .any => readAny context (readValue context depth)

/-- How many levels deep a reader may be read. Every level of a document has a token of
its own; what goes beyond them is for documents that hooks make deeper. -/
def depthFor (reader : Reader) : Nat := reader.rest.length + Hook.nestingLimit

/-- Read a document as an entity declared as a model. -/
def decode (context : MappingContext) (declared : EntityModel) (checked : Bool) :
    DecodeM Entity := do
  let depth := depthFor (← get).reader
  readEntity context (readValue context depth) declared checked

/-- Read a value by a codec. -/
def decodeValue (context : MappingContext) (codec : Codec) : DecodeM Value := do
  let depth := depthFor (← get).reader
  readValue context depth codec

end Decoding

end EntityMapping
