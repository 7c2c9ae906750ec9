import EntityMapping.Bson.Equality
import EntityMapping.Value.Basic
/-!
# Equality of values and entities

Maps are equal when they hold equal values under the same names in whatever
order. Entities are equal when they are of one kind and agree on every
property, an empty list or map counting as absent.
-/

namespace EntityMapping

/-- The properties that count when entities are compared: all but the empty
lists and maps. -/
def significant (properties : List (String × Value)) : List (String × Value) :=
  properties.filter fun entry => !entry.2.isEmptyCollection

namespace Value

mutual

/-- Equality of values; doubles compare as numbers. -/
def same : Value → Value → Bool
  | .null, .null => true
  | .bool left, .bool right => decide (left = right)
  | .int32 left, .int32 right => decide (left = right)
  | .int64 left, .int64 right => decide (left = right)
  | .double left, .double right => left.same right
  | .string left, .string right => decide (left = right)
  | .objectId left, .objectId right => decide (left = right)
  | .dateTime left, .dateTime right => decide (left = right)
  | .array left, .array right => sameItems left right
  | .map left, .map right => decide (left.length = right.length) && sameEntries left right
  | .entity kind properties, .entity otherKind otherProperties =>
    decide (kind = otherKind) &&
      decide ((significant properties).length = (significant otherProperties).length) &&
      sameProperties properties otherProperties
  | .other left, .other right => left.same right
  | _, _ => false

/-- Equality of lists, item by item. -/
def sameItems : List Value → List Value → Bool
  | [], [] => true
  | left :: lefts, right :: rights => same left right && sameItems lefts rights
  | _, _ => false

/-- Every entry on the left has an equal one of the same name on the right. -/
def sameEntries : List (String × Value) → List (String × Value) → Bool
  | [], _ => true
  | (key, left) :: rest, others =>
    (match Keyed.get? key others with
    | some right => same left right
    | none => false) && sameEntries rest others

/-- Every significant property on the left has an equal one on the right. -/
def sameProperties : List (String × Value) → List (String × Value) → Bool
  | [], _ => true
  | (key, left) :: rest, others =>
    (left.isEmptyCollection ||
      (match Keyed.get? key others with
      | some right => same left right
      | none => false)) && sameProperties rest others

end

end Value

namespace Entity

/-- Equality of entities. -/
def same (left right : Entity) : Bool :=
  (Value.ofEntity left).same (Value.ofEntity right)

end Entity

end EntityMapping
