import EntityMapping.Bson.Basic
import EntityMapping.FieldType
/-!
# Property values and entities

An entity is a named kind with ordered properties; a property holds a value. A
property that was set to null and one that was never set are the same state,
and an empty list or map counts as absent when entities are compared.
-/

namespace EntityMapping

/-- A value held by a property. -/
inductive Value where
  /-- No value. -/
  | null
  /-- A truth value. -/
  | bool (value : Bool)
  /-- A signed 32-bit integer. -/
  | int32 (value : Int32)
  /-- A signed 64-bit integer. -/
  | int64 (value : Int64)
  /-- A double precision number. -/
  | double (value : Binary64)
  /-- A text. -/
  | string (value : String)
  /-- An object identifier. -/
  | objectId (value : ObjectId)
  /-- A time in milliseconds since the start of 1970. -/
  | dateTime (millis : Int64)
  /-- An ordered list of values. -/
  | array (items : List Value)
  /-- Named values in order. -/
  | map (entries : List (String × Value))
  /-- An embedded entity: its kind and its properties. -/
  | entity (kind : String) (properties : List (String × Value))
  /-- A document value that has no form of its own here. -/
  | other (raw : Bson)
  deriving Inhabited

/-- An instance of an entity model. -/
structure Entity where
  /-- The name of the model the instance belongs to. -/
  kind : String
  /-- The properties that hold a value, in the order they were first set. -/
  properties : Keyed Value
  deriving Inhabited

namespace Value

/-- Whether the value is null. -/
def isNull : Value → Bool
  | null => true
  | _ => false

/-- Whether the value is a list or map without content. -/
def isEmptyCollection : Value → Bool
  | array items => items.isEmpty
  | map entries => entries.isEmpty
  | _ => false

/-- The type a value shows by itself. Collections show any element type; null and
values without a form of their own show none. -/
def runtimeType : Value → Option FieldType
  | null => none
  | bool _ => some (.scalar .bool)
  | int32 _ => some (.scalar .int32)
  | int64 _ => some (.scalar .int64)
  | double _ => some (.scalar .double)
  | string _ => some (.scalar .string)
  | objectId _ => some (.scalar .objectId)
  | dateTime _ => some (.scalar .dateTime)
  | array _ => some (.list .any)
  | map _ => some (.map .any)
  | entity kind _ => some (.entity kind)
  | other _ => none

/-- The short name of a value's form in messages. -/
def kindName : Value → String
  | null => "null"
  | bool _ => "bool"
  | int32 _ => "int32"
  | int64 _ => "int64"
  | double _ => "double"
  | string _ => "string"
  | objectId _ => "objectId"
  | dateTime _ => "datetime"
  | array _ => "array"
  | map _ => "map"
  | entity _ _ => "entity"
  | other _ => "bson"

/-- The text of a text value. -/
def text? : Value → Option String
  | string value => some value
  | _ => none

/-- The entity in an entity value. -/
def entity? : Value → Option Entity
  | entity kind properties => some ⟨kind, properties⟩
  | _ => none

/-- An entity as a value. -/
def ofEntity (subject : Entity) : Value :=
  .entity subject.kind subject.properties

mutual

/-- The value a stored document value stands for when no type is declared;
embedded documents become maps. -/
def ofBson : Bson → Value
  | .null => .null
  | .undefined => .null
  | .boolean value => .bool value
  | .int32 value => .int32 value
  | .int64 value => .int64 value
  | .double value => .double value
  | .string value => .string value
  | .objectId value => .objectId value
  | .dateTime millis => .dateTime millis
  | .array items => .array (ofItems items)
  | .document entries => .map (ofEntries entries)
  | .regex pattern options => .other (.regex pattern options)
  | .code source => .other (.code source)
  | .scopedCode source scope => .other (.scopedCode source scope)
  | .binary subtype bytes => .other (.binary subtype bytes)
  | .timestamp time increment => .other (.timestamp time increment)
  | .decimal bytes => .other (.decimal bytes)
  | .symbol value => .other (.symbol value)
  | .minKey => .other .minKey
  | .maxKey => .other .maxKey
  | .reference space id => .other (.reference space id)

/-- The values of the items of an array. -/
def ofItems : List Bson → List Value
  | [] => []
  | item :: rest => ofBson item :: ofItems rest

/-- The values of the entries of a document, under the same names. -/
def ofEntries : List (String × Bson) → List (String × Value)
  | [] => []
  | (key, value) :: rest => (key, ofBson value) :: ofEntries rest

end

end Value

namespace Entity

/-- An entity without properties. -/
def empty (kind : String) : Entity := ⟨kind, []⟩

/-- The value of a property. -/
def get? (entity : Entity) (property : String) : Option Value :=
  Keyed.get? property entity.properties

/-- The value of a property, null when it has none. -/
def valueOf (entity : Entity) (property : String) : Value :=
  (entity.get? property).getD .null

/-- Drop a property. -/
def remove (entity : Entity) (property : String) : Entity :=
  { entity with properties := Keyed.remove property entity.properties }

/-- Give a property a value; null drops the property. -/
def set (entity : Entity) (property : String) (value : Value) : Entity :=
  if value.isNull then entity.remove property
  else { entity with properties := Keyed.insert property value entity.properties }

/-- A property does not change the kind. -/
@[simp] theorem set_kind (entity : Entity) (property : String) (value : Value) :
    (entity.set property value).kind = entity.kind := by
  unfold set
  split <;> rfl

/-- What is there after a property is set is what it was set to, or was there before. -/
theorem mem_set {entity : Entity} {property : String} {value : Value} {entry : String × Value}
    (member : entry ∈ (entity.set property value).properties) :
    (entry = (property, value) ∧ value ≠ .null) ∨ entry ∈ entity.properties := by
  unfold set at member
  split at member
  · exact .inr (List.mem_filter.mp member).1
  · rename_i filled
    have present : value ≠ .null := fun isNull => filled (by rw [isNull]; rfl)
    exact (Keyed.mem_insert member).imp_left fun here => ⟨here, present⟩

/-- A property is not there twice after it is set. -/
theorem distinct_set {entity : Entity} (apart : Keyed.Distinct entity.properties)
    (property : String) (value : Value) :
    Keyed.Distinct (entity.set property value).properties := by
  unfold set
  split
  · exact apart.remove property
  · exact apart.insert property value

/-- A property has the value that it was given; null is no value. -/
theorem get?_set_self (entity : Entity) (property : String) (value : Value) :
    (entity.set property value).get? property = if value.isNull then none else some value := by
  unfold set get?
  split
  · exact Keyed.get?_remove_self property entity.properties
  · exact Keyed.get?_insert_self property value entity.properties

/-- Setting a property does not touch another. -/
theorem get?_set_other {property other : String} (different : other ≠ property)
    (entity : Entity) (value : Value) :
    (entity.set property value).get? other = entity.get? other := by
  unfold set get?
  split
  · exact Keyed.get?_remove_other different entity.properties
  · exact Keyed.get?_insert_other different value entity.properties

/-- The count of properties that hold a value. -/
def size (entity : Entity) : Nat := entity.properties.length

end Entity

end EntityMapping
