import EntityMapping.Bson.Basic
/-!
# Equality of document values

Two documents are equal when they store equal values under the same names, in
whatever order; doubles compare as numbers, so a NaN equals nothing.
-/

namespace EntityMapping.Bson

mutual

/-- Equality of values, ignoring the order of names at every depth. -/
def same : Bson → Bson → Bool
  | .null, .null => true
  | .boolean left, .boolean right => decide (left = right)
  | .int32 left, .int32 right => decide (left = right)
  | .int64 left, .int64 right => decide (left = right)
  | .double left, .double right => left.same right
  | .string left, .string right => decide (left = right)
  | .objectId left, .objectId right => decide (left = right)
  | .dateTime left, .dateTime right => decide (left = right)
  | .array left, .array right => sameItems left right
  | .document left, .document right =>
    decide (left.length = right.length) && sameEntries left right
  | .regex pattern options, .regex otherPattern otherOptions =>
    decide (pattern = otherPattern) && decide (options = otherOptions)
  | .code left, .code right => decide (left = right)
  | .scopedCode source scope, .scopedCode otherSource otherScope =>
    decide (source = otherSource) && decide (scope.length = otherScope.length) &&
      sameEntries scope otherScope
  | .binary subtype bytes, .binary otherSubtype otherBytes =>
    decide (subtype = otherSubtype) && decide (bytes = otherBytes)
  | .timestamp time increment, .timestamp otherTime otherIncrement =>
    decide (time = otherTime) && decide (increment = otherIncrement)
  | .decimal left, .decimal right => decide (left = right)
  | .symbol left, .symbol right => decide (left = right)
  | .undefined, .undefined => true
  | .minKey, .minKey => true
  | .maxKey, .maxKey => true
  | .reference space id, .reference otherSpace otherId =>
    decide (space = otherSpace) && decide (id = otherId)
  | _, _ => false

/-- Equality of arrays, item by item. -/
def sameItems : List Bson → List Bson → Bool
  | [], [] => true
  | left :: lefts, right :: rights => same left right && sameItems lefts rights
  | _, _ => false

/-- Every entry on the left has an equal one of the same name on the right. -/
def sameEntries : List (String × Bson) → List (String × Bson) → Bool
  | [], _ => true
  | (key, left) :: rest, others =>
    (match Keyed.get? key others with
    | some right => same left right
    | none => false) && sameEntries rest others

end

end EntityMapping.Bson
