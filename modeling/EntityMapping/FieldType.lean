/-!
# Declared types

What a field of an entity model is declared as: a scalar, a list or map of one
element type, an embedded entity named by its model, or anything at all.
-/

namespace EntityMapping

/-- A type with one fixed representation on the wire. -/
inductive ScalarType where
  | bool | int32 | int64 | double | string | objectId | dateTime
  deriving DecidableEq

/-- The declared type of a field. -/
inductive FieldType where
  /-- A scalar. -/
  | scalar (type : ScalarType)
  /-- An ordered list whose elements share one type. -/
  | list (element : FieldType)
  /-- Named values that share one type. -/
  | map (value : FieldType)
  /-- An embedded entity, by the name of its model. -/
  | entity (name : String)
  /-- Any value, stored by its kind. -/
  | any
  deriving DecidableEq, Inhabited

namespace ScalarType

/-- The name of a scalar type in messages. -/
def name : ScalarType → String
  | bool => "Bool"
  | int32 => "Int32"
  | int64 => "Int64"
  | double => "Double"
  | string => "String"
  | objectId => "ObjectId"
  | dateTime => "DateTime"

/-- Every scalar type. -/
def all : List ScalarType := [bool, int32, int64, double, string, objectId, dateTime]

/-- The scalar type with a given name. -/
def ofName (text : String) : Option ScalarType :=
  all.find? fun type => decide (type.name = text)

/-- The name of a scalar type stands for it alone. -/
theorem ofName_name (type : ScalarType) : ofName type.name = some type := by
  cases type <;> decide

end ScalarType

namespace FieldType

/-- The text of a type in messages; an entity shows the bare name of its model. -/
def text : FieldType → String
  | scalar type => type.name
  | list element => "List<" ++ text element ++ ">"
  | map value => "Map<" ++ text value ++ ">"
  | entity name => name
  | any => "Any"

/-- Whether the type is a list type. -/
def isList : FieldType → Bool
  | list _ => true
  | _ => false

/-- Whether the type is a map type. -/
def isMap : FieldType → Bool
  | map _ => true
  | _ => false

/-- Types that count as one when a value of one meets the other: equal types,
any two list types and any two map types. -/
def equivalent (left right : FieldType) : Bool :=
  decide (left = right) || (left.isList && right.isList) || (left.isMap && right.isMap)

/-- Whether a freshly made identifier may be stored in a field of this type. -/
def acceptsObjectId : FieldType → Bool
  | scalar .objectId => true
  | any => true
  | _ => false

/-- Two entity types are equivalent exactly when they name one model. -/
theorem equivalent_entity (left right : String) :
    equivalent (.entity left) (.entity right) = decide (left = right) := by
  simp [equivalent, isList, isMap]

end FieldType

end EntityMapping
