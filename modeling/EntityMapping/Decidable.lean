import EntityMapping.Mapping.Error
import EntityMapping.Value.Basic
/-!
# Telling values and outcomes apart

Values hold lists of values, so whether two are one is decided along them. With
it, what a run on a given document comes to can be evaluated.
-/

namespace EntityMapping

namespace Bson

mutual

/-- Whether two values are one. -/
def decEq (left right : Bson) : Decidable (left = right) :=
  -- Values of different constructors differ by number, so only the pairs of one
  -- constructor are told apart by what they hold.
  if same : left.ctorIdx = right.ctorIdx then
    match left, right, same with
    | .null, .null, _ | .undefined, .undefined, _ | .minKey, .minKey, _ | .maxKey, .maxKey, _ =>
      isTrue rfl
    | .boolean left, .boolean right, _ => decidable_of_iff (left = right) (by rw [boolean.injEq])
    | .int32 left, .int32 right, _ => decidable_of_iff (left = right) (by rw [int32.injEq])
    | .int64 left, .int64 right, _ => decidable_of_iff (left = right) (by rw [int64.injEq])
    | .double left, .double right, _ => decidable_of_iff (left = right) (by rw [double.injEq])
    | .string left, .string right, _ => decidable_of_iff (left = right) (by rw [string.injEq])
    | .objectId left, .objectId right, _ => decidable_of_iff (left = right) (by rw [objectId.injEq])
    | .dateTime left, .dateTime right, _ => decidable_of_iff (left = right) (by rw [dateTime.injEq])
    | .array left, .array right, _ =>
      have := decEqItems left right
      decidable_of_iff (left = right) (by rw [array.injEq])
    | .document left, .document right, _ =>
      have := decEqEntries left right
      decidable_of_iff (left = right) (by rw [document.injEq])
    | .regex pattern options, .regex other others, _ =>
      decidable_of_iff (pattern = other ∧ options = others) (by rw [regex.injEq])
    | .code left, .code right, _ => decidable_of_iff (left = right) (by rw [code.injEq])
    | .scopedCode source scope, .scopedCode other others, _ =>
      have := decEqEntries scope others
      decidable_of_iff (source = other ∧ scope = others) (by rw [scopedCode.injEq])
    | .binary subtype bytes, .binary other others, _ =>
      decidable_of_iff (subtype = other ∧ bytes = others) (by rw [binary.injEq])
    | .timestamp time increment, .timestamp other others, _ =>
      decidable_of_iff (time = other ∧ increment = others) (by rw [timestamp.injEq])
    | .decimal left, .decimal right, _ => decidable_of_iff (left = right) (by rw [decimal.injEq])
    | .symbol left, .symbol right, _ => decidable_of_iff (left = right) (by rw [symbol.injEq])
    | .reference space id, .reference other others, _ =>
      decidable_of_iff (space = other ∧ id = others) (by rw [reference.injEq])
  else isFalse fun equal => same (congrArg Bson.ctorIdx equal)

/-- Whether two lists of values are one. -/
def decEqItems : (left right : List Bson) → Decidable (left = right)
  | [], [] => isTrue rfl
  | [], _ :: _ | _ :: _, [] => isFalse nofun
  | left :: lefts, right :: rights =>
    have := decEq left right
    have := decEqItems lefts rights
    decidable_of_iff (left = right ∧ lefts = rights) (by rw [List.cons.injEq])

/-- Whether two lists of named values are one. -/
def decEqEntries : (left right : List (String × Bson)) → Decidable (left = right)
  | [], [] => isTrue rfl
  | [], _ :: _ | _ :: _, [] => isFalse nofun
  | (name, left) :: lefts, (other, right) :: rights =>
    have := decEq left right
    have := decEqEntries lefts rights
    decidable_of_iff ((name = other ∧ left = right) ∧ lefts = rights)
      (by rw [List.cons.injEq, Prod.mk.injEq])

end

/-- Equality of values is decided along them. -/
instance : DecidableEq Bson := decEq

end Bson

namespace Value

mutual

/-- Whether two property values are one. -/
def decEq (left right : Value) : Decidable (left = right) :=
  if same : left.ctorIdx = right.ctorIdx then
    match left, right, same with
    | .null, .null, _ => isTrue rfl
    | .bool left, .bool right, _ => decidable_of_iff (left = right) (by rw [bool.injEq])
    | .int32 left, .int32 right, _ => decidable_of_iff (left = right) (by rw [int32.injEq])
    | .int64 left, .int64 right, _ => decidable_of_iff (left = right) (by rw [int64.injEq])
    | .double left, .double right, _ => decidable_of_iff (left = right) (by rw [double.injEq])
    | .string left, .string right, _ => decidable_of_iff (left = right) (by rw [string.injEq])
    | .objectId left, .objectId right, _ => decidable_of_iff (left = right) (by rw [objectId.injEq])
    | .dateTime left, .dateTime right, _ => decidable_of_iff (left = right) (by rw [dateTime.injEq])
    | .array left, .array right, _ =>
      have := decEqItems left right
      decidable_of_iff (left = right) (by rw [array.injEq])
    | .map left, .map right, _ =>
      have := decEqEntries left right
      decidable_of_iff (left = right) (by rw [map.injEq])
    | .entity kind properties, .entity another others, _ =>
      have := decEqEntries properties others
      decidable_of_iff (kind = another ∧ properties = others) (by rw [entity.injEq])
    | .other left, .other right, _ => decidable_of_iff (left = right) (by rw [other.injEq])
  else isFalse fun equal => same (congrArg Value.ctorIdx equal)

/-- Whether two lists of property values are one. -/
def decEqItems : (left right : List Value) → Decidable (left = right)
  | [], [] => isTrue rfl
  | [], _ :: _ | _ :: _, [] => isFalse nofun
  | left :: lefts, right :: rights =>
    have := decEq left right
    have := decEqItems lefts rights
    decidable_of_iff (left = right ∧ lefts = rights) (by rw [List.cons.injEq])

/-- Whether two lists of named property values are one. -/
def decEqEntries : (left right : List (String × Value)) → Decidable (left = right)
  | [], [] => isTrue rfl
  | [], _ :: _ | _ :: _, [] => isFalse nofun
  | (name, left) :: lefts, (another, right) :: rights =>
    have := decEq left right
    have := decEqEntries lefts rights
    decidable_of_iff ((name = another ∧ left = right) ∧ lefts = rights)
      (by rw [List.cons.injEq, Prod.mk.injEq])

end

/-- Equality of property values is decided along them. -/
instance : DecidableEq Value := decEq

end Value

deriving instance DecidableEq for Entity, Token, DocumentError

deriving instance DecidableEq for MappingError

end EntityMapping
