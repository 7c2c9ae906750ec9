import EntityMapping.Bson.Wire
import EntityMapping.Decoding.Basic
import EntityMapping.Mapper.Assembly
/-!
# What a mapper does

Entities become documents or bytes and come back from them. Hooks may ask the
mapper for documents of other entities, whose hooks may ask in turn.
-/

namespace EntityMapping

/-- The outcome of a step, and the session after it. -/
abbrev Outcome (α : Type) := Except MappingError α × Session

namespace Mapper

/-- What hooks may ask for, given how documents of entities are made. -/
def servicesWith (mapper : Mapper) (encode : Entity → Session → Encoded) : Services where
  lookup := mapper.discriminators.lookup
  encode entity := fun session =>
    let encoded := encode entity session
    (encoded.outcome, encoded.session)

/-- The document of a top-level entity, with hooks asking for documents at most the
given count of times inside one another. -/
def encodeWithin (mapper : Mapper) : Nat → Entity → Session → Encoded
  | 0, entity, session => ⟨.error .nestedTooDeep, entity, session⟩
  | depth + 1, entity, session =>
    match mapper.model entity.kind with
    | .error cause => ⟨.error cause, entity, session⟩
    | .ok model =>
      Encoding.encode ⟨mapper, mapper.servicesWith (mapper.encodeWithin depth)⟩ model true
        entity session

/-- What the encodings and decodings of a mapper run with. -/
def context (mapper : Mapper) : MappingContext :=
  ⟨mapper, mapper.servicesWith (mapper.encodeWithin Hook.nestingLimit)⟩

/-- A mapper runs with itself. -/
@[simp] theorem context_mapper (mapper : Mapper) : mapper.context.mapper = mapper := rfl

/-- The document of a top-level entity, which is given an id if it needs one. -/
def toDocument (mapper : Mapper) (entity : Entity) (session : Session) : Encoded :=
  mapper.encodeWithin (Hook.nestingLimit + 1) entity session

/-- The bytes of a top-level entity, with the entity after the call. -/
def toBytes (mapper : Mapper) (entity : Entity) (session : Session) :
    Except MappingError (List UInt8) × Entity × Session :=
  let encoded := mapper.toDocument entity session
  let bytes : Except MappingError (List UInt8) :=
    match encoded.outcome with
    | .ok document => (Wire.write document).mapError .document
    | .error cause => .error cause
  (bytes, encoded.entity, encoded.session)

/-- Encode an entity declared as a model. -/
def encodeAs (mapper : Mapper) (declared : EntityModel) (collectible : Bool) (entity : Entity)
    (session : Session) : Encoded :=
  Encoding.encode mapper.context declared collectible entity session

/-- Encode an entity declared as a model without giving it an id. -/
def encodeUnchanged (mapper : Mapper) (declared : EntityModel) (entity : Entity)
    (session : Session) : Outcome Document :=
  Encoding.documentOf (Encoding.write mapper.context declared entity) session

/-- The document value that a codec writes for a value. -/
def encodeValue (mapper : Mapper) (codec : Codec) (value : Value) (session : Session) :
    Outcome Bson :=
  let (outcome, state) :=
    (Encoding.writeValue mapper.context value codec).run.run ⟨Writer.empty, session⟩
  let result : Except MappingError Bson :=
    match outcome with
    | .ok _ => state.writer.value?.mapError .document
    | .error cause => .error cause
  (result, state.session)

/-- Run a decoding step on a reader. -/
def run {α : Type} (action : DecodeM α) (reader : Reader) (session : Session) :
    Except MappingError α × DecodeState :=
  action.run.run ⟨reader, session⟩

/-- Decode what a reader stands at as an entity declared as a model. -/
def decodeAs (mapper : Mapper) (declared : EntityModel) (checked : Bool) (reader : Reader)
    (session : Session) : Except MappingError Entity × DecodeState :=
  run (Decoding.decode mapper.context declared checked) reader session

/-- Decode the value a reader stands at by a codec. -/
def decodeValue (mapper : Mapper) (codec : Codec) (reader : Reader) (session : Session) :
    Except MappingError Value × DecodeState :=
  run (Decoding.decodeValue mapper.context codec) reader session

/-- The entity in a document, of a declared kind or of the kind its discriminator
names. -/
def fromDocument (mapper : Mapper) (kind : String) (document : Document) (session : Session) :
    Outcome Entity :=
  match mapper.model kind with
  | .error cause => (.error cause, session)
  | .ok declared =>
    let (outcome, state) := mapper.decodeAs declared false (Reader.ofDocument document) session
    (outcome, state.session)

/-- The entity in the bytes of a document. -/
def fromBytes (mapper : Mapper) (kind : String) (bytes : List UInt8) (session : Session) :
    Outcome Entity :=
  match Wire.read bytes with
  | .error cause => (.error (.document cause), session)
  | .ok document => mapper.fromDocument kind document session

end Mapper

end EntityMapping
