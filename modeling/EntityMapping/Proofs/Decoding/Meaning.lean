import EntityMapping.Decoding.Basic
import EntityMapping.Proofs.Bson.Distinct
import EntityMapping.Proofs.Steps
/-!
# What a stored value means

Decoding takes a value off a token stream. Its meaning is said here without the
stream: by recursion over the stored value, with hooks as the only steps that
have an effect. Where decoding goes back and reads a value a second time, its
meaning looks at the same value twice.
-/

namespace EntityMapping

/-- The type of the stored values of a scalar type. -/
def ScalarType.elementType : ScalarType → ElementType
  | bool => .boolean
  | int32 => .int32
  | int64 => .int64
  | double => .double
  | string => .string
  | objectId => .objectId
  | dateTime => .dateTime

namespace Meaning

/-- The failure to meet a value of one type where another was expected. -/
def mismatch (expected : ElementType) (stored : Bson) : MappingError :=
  .document (.typeMismatch expected stored.elementType)

/-- A stored scalar. -/
def scalar (type : ScalarType) (stored : Bson) : SessionM Value :=
  if stored.elementType = type.elementType then pure (Value.ofBson stored)
  else throw (mismatch type.elementType stored)

/-- A stored null is null; any other value means what the child says. -/
def nullable (child : Bson → SessionM Value) (stored : Bson) : SessionM Value :=
  if stored.elementType = .null then pure .null else child stored

/-- The items of an array. -/
def items (child : Bson → SessionM Value) (stored : List Bson) : SessionM Value :=
  Value.array <$> stored.mapM child

/-- A stored array. -/
def list (child : Bson → SessionM Value) : Bson → SessionM Value
  | .array stored => items child stored
  | other => throw (mismatch .array other)

/-- The next entry of a map. -/
def entry (child : Bson → SessionM Value) (found : Keyed Value) (stored : String × Bson) :
    SessionM (Keyed Value) := do
  let value ← child stored.2
  pure (Keyed.insert stored.1 value found)

/-- The entries of a map. -/
def entries (child : Bson → SessionM Value) (stored : List (String × Bson)) : SessionM Value :=
  Value.map <$> stored.foldlM (entry child) []

/-- A stored map. -/
def map (child : Bson → SessionM Value) : Bson → SessionM Value
  | .document stored => entries child stored
  | other => throw (mismatch .embeddedDocument other)

/-- The value of a field: read by its codec, or read for what it is and converted. -/
def fieldValue (child : Codec → Bson → SessionM Value) (model : EntityModel) (field : Field)
    (stored : Bson) : SessionM Value :=
  if stored.elementType = .null then pure .null
  else do
    let codec ← SessionM.ofExcept field.resolved
    match ← SessionM.attempt (child codec stored) with
    | .ok value => pure value
    | .error cause =>
      if cause.isTypeMismatch then do
        let raw ← child .any stored
        SessionM.ofExcept
          ((convert field.type raw).mapError (.decoding model.name field.name))
      else throw (.decoding model.name field.name cause)

/-- The entity with one more entry of its document. -/
def property (child : Codec → Bson → SessionM Value) (model : EntityModel) (entity : Entity)
    (stored : String × Bson) : SessionM Entity :=
  if model.activeKey = some stored.1 then pure entity
  else
    match model.fieldStoredAs stored.1 with
    | some field => entity.set field.name <$> fieldValue child model field stored.2
    | none => pure entity

/-- The entity of a model in a document, without hooks. -/
def properties (child : Codec → Bson → SessionM Value) (model : EntityModel)
    (document : Document) : SessionM Entity :=
  document.foldlM (property child model) (Entity.empty model.name)

/-- The document that is built from the entries of a stream. -/
def document (entries : List (String × Bson)) : Document :=
  Keyed.ofPairs (Bson.rebuiltEntries entries)

/-- A document with distinct names is built from its own entries. -/
theorem document_distinct {stored : Document} (distinct : stored.Distinct) :
    document stored = stored := by
  have parts : Keyed.Distinct stored ∧ Bson.EntriesDistinct stored := by
    simpa [Document.Distinct, Bson.Distinct] using distinct
  rw [document, Bson.rebuiltEntries_distinct parts.2, Keyed.ofPairs_distinct parts.1]

/-- The entity of a model in a document that hooks see as a whole. -/
def hooked (context : MappingContext) (child : Codec → Bson → SessionM Value)
    (model : EntityModel) (stored : Document) : SessionM Entity := do
  let changed ← Encoding.runHooks context model .preLoad (Entity.empty model.name) stored
  let entity ← properties child model changed
  discard (Encoding.runHooks context model .postLoad entity changed)
  pure entity

/-- The entity in a document that hooks see, declared as a model. -/
def withHooks (context : MappingContext) (child : Codec → Bson → SessionM Value)
    (declared : EntityModel) (checked : Bool) (stored : List (String × Bson)) :
    SessionM Entity :=
  if checked then hooked context child declared (document stored)
  else do
    let model ← SessionM.ofExcept
      (Decoding.modelOfDocument context.mapper declared (document stored))
    hooked context child model (document stored)

/-- The entity in a document, declared as a model. -/
def entity (context : MappingContext) (child : Codec → Bson → SessionM Value)
    (declared : EntityModel) (checked : Bool) (stored : List (String × Bson)) :
    SessionM Entity :=
  if Decoding.needsHooks context declared then withHooks context child declared checked stored
  else if checked then properties child declared stored
  else do
    let model ← SessionM.ofExcept (Decoding.modelOfDocument context.mapper declared stored)
    if Decoding.needsHooks context model then withHooks context child model true stored
    else properties child model stored

/-- A stored entity, declared by the name of its model. -/
def embedded (context : MappingContext) (child : Codec → Bson → SessionM Value)
    (name : String) : Bson → SessionM Value
  | .document stored => do
    let declared ← SessionM.ofExcept (context.mapper.model name)
    Value.ofEntity <$> entity context child declared false stored
  | other => throw (mismatch .embeddedDocument other)

/-- A stored value for what it is. -/
def any (context : MappingContext) (child : Codec → Bson → SessionM Value) :
    Bson → SessionM Value
  | .document stored =>
    match Decoding.recognise context.mapper (document stored) with
    | some model => Value.ofEntity <$> entity context child model false stored
    | none => pure (Value.ofBson (.document (document stored)))
  | .array stored => items (child .any) stored
  | other => pure (Value.ofBson other)

/-- A stored value by a codec, at most the given count of levels deep. -/
def value (context : MappingContext) : Nat → Codec → Bson → SessionM Value
  | 0, _ => fun _ => throw .nestedTooDeep
  | _ + 1, .scalar type => scalar type
  | depth + 1, .list element => list (nullable (value context depth element))
  | depth + 1, .map element => map (nullable (value context depth element))
  | depth + 1, .entity name => embedded context (value context depth) name
  | depth + 1, .any => any context (value context depth)

/-! ## Reading alike -/

/-- What may be null is read alike where the child reads it alike. -/
theorem nullable_congr {left right : Bson → SessionM Value} {stored : Bson}
    (same : left stored = right stored) : nullable left stored = nullable right stored := by
  rw [nullable, nullable, same]

/-- Lists are read alike where their items are. -/
theorem list_congr {left right : Bson → SessionM Value} {stored : Bson}
    (each : ∀ items, stored = .array items → ∀ item ∈ items, left item = right item) :
    list left stored = list right stored := by
  cases stored with
  | array stored => rw [list, list, items, items, mapM_congr (each stored rfl)]
  | _ => rfl

/-- Maps are read alike where their values are. -/
theorem map_congr {left right : Bson → SessionM Value} {stored : Bson}
    (each : ∀ entries, stored = .document entries → ∀ entry ∈ entries,
      left entry.2 = right entry.2) : map left stored = map right stored := by
  cases stored with
  | document stored =>
    have step : ∀ found, ∀ next ∈ stored, entry left found next = entry right found next := by
      intro found next member
      rw [entry, entry, each stored rfl next member]
    rw [map, map, entries, entries, foldlM_congr step]
  | _ => rfl

section

variable {one other : Codec → Bson → SessionM Value}

/-- Fields are read alike where their values are. -/
theorem fieldValue_congr {stored : Bson} (each : ∀ codec, one codec stored = other codec stored)
    (model : EntityModel) (field : Field) :
    fieldValue one model field stored = fieldValue other model field stored := by
  unfold fieldValue
  split
  · rfl
  · refine bind_congr fun codec => ?_
    rw [each codec, each .any]

/-- Entities of a model are read alike where the values of the entries are. -/
theorem properties_congr {document : Document}
    (each : ∀ entry ∈ document, ∀ codec, one codec entry.2 = other codec entry.2)
    (model : EntityModel) : properties one model document = properties other model document := by
  refine foldlM_congr (fun entity stored member => ?_) _
  unfold property
  split
  · rfl
  · split
    · rw [fieldValue_congr (each stored member)]
    · rfl

end

end Meaning

end EntityMapping
