import EntityMapping.Binary64.Reading
import EntityMapping.Binary64.Rounding
import EntityMapping.Binary64.Shortest
import EntityMapping.Mapping.Error
import EntityMapping.Text.Blank
import EntityMapping.Value.Basic
/-!
# Converting values to declared types

Used when a stored value no longer has the type its field declares. Null stays
null for every type, lists and maps convert element by element, and a single
value becomes a list of one. Numbers convert when the result is in range,
texts when they spell a value of the target.
-/

namespace EntityMapping

/-- Whether an integer fits thirty-two bits. -/
def fitsInt32 (value : Int) : Bool :=
  decide (-2147483648 ≤ value) && decide (value < 2147483648)

/-- Whether an integer fits sixty-four bits. -/
def fitsInt64 (value : Int) : Bool :=
  decide (-9223372036854775808 ≤ value) && decide (value < 9223372036854775808)

namespace Binary64

/-- The 32-bit integer part of a finite number between the two 32-bit limits. -/
def toInt32? (value : Binary64) : Option Int32 :=
  if value.isFinite && value.atLeast (-2147483648) && value.atMost 2147483647 then
    some (Int32.ofInt value.truncate)
  else none

/-- The 64-bit integer part of a finite number between the two 64-bit limits as
doubles. The upper limit as a double is one more than the largest integer, which
then stands for it. -/
def toInt64? (value : Binary64) : Option Int64 :=
  if value.isFinite && value.atLeast (-9223372036854775808) &&
      value.atMost 9223372036854775808 then
    let whole := value.truncate
    some (Int64.ofInt (if whole < 9223372036854775808 then whole else 9223372036854775807))
  else none

end Binary64

namespace Conversion

/-- The characters of a text without white space at its ends. -/
def trimmed (text : String) : List Char :=
  Blank.trim text.toList

/-- The 32-bit integer that a text spells. -/
def readInt32 (text : String) : Option Int32 :=
  match Integer.read (trimmed text) with
  | some value => if fitsInt32 value then some (Int32.ofInt value) else none
  | none => none

/-- The 64-bit integer that a text spells. -/
def readInt64 (text : String) : Option Int64 :=
  match Integer.read (trimmed text) with
  | some value => if fitsInt64 value then some (Int64.ofInt value) else none
  | none => none

/-- The truth value that a text spells. -/
def readBool (text : String) : Option Bool :=
  let characters := trimmed text
  if characters = ['t', 'r', 'u', 'e'] then some true
  else if characters = ['f', 'a', 'l', 's', 'e'] then some false
  else none

/-- A value as a truth value. -/
def toBool : Value → Option Bool
  | .int32 value => some (decide (value ≠ 0))
  | .int64 value => some (decide (value ≠ 0))
  | .string text => readBool text
  | _ => none

/-- A value as a 32-bit integer. -/
def toInt32 : Value → Option Int32
  | .int64 value => if fitsInt32 value.toInt then some (Int32.ofInt value.toInt) else none
  | .double value => value.toInt32?
  | .bool value => some (if value then 1 else 0)
  | .string text => readInt32 text
  | _ => none

/-- A value as a 64-bit integer. -/
def toInt64 : Value → Option Int64
  | .int32 value => some (Int64.ofInt value.toInt)
  | .double value => value.toInt64?
  | .dateTime millis => some millis
  | .bool value => some (if value then 1 else 0)
  | .string text => readInt64 text
  | _ => none

/-- A value as a double. -/
def toDouble : Value → Option Binary64
  | .int32 value => some (Binary64.ofInt value.toInt)
  | .int64 value => some (Binary64.ofInt value.toInt)
  | .string text => Binary64.read (trimmed text)
  | _ => none

/-- A value as a text. -/
def toText : Value → Option String
  | .bool value => some (if value then "true" else "false")
  | .int32 value => some (Integer.write value.toInt)
  | .int64 value => some (Integer.write value.toInt)
  | .double value => some value.text
  | .objectId id => some id.text
  | _ => none

/-- A value as an object identifier. -/
def toObjectId : Value → Option ObjectId
  | .string text => ObjectId.read text
  | _ => none

/-- A value as a time. -/
def toDateTime : Value → Option Int64
  | .int64 millis => some millis
  | .int32 millis => some (Int64.ofInt millis.toInt)
  | _ => none

/-- A value of another kind as a scalar. -/
def toScalar (target : ScalarType) (value : Value) : Option Value :=
  match target with
  | .bool => (toBool value).map .bool
  | .int32 => (toInt32 value).map .int32
  | .int64 => (toInt64 value).map .int64
  | .double => (toDouble value).map .double
  | .string => (toText value).map .string
  | .objectId => (toObjectId value).map .objectId
  | .dateTime => (toDateTime value).map .dateTime

/-- Whether a value needs no conversion: it is null, anything is allowed, or it has
the declared type. Lists and maps are always looked into. -/
def settled (value : Value) (target : FieldType) : Bool :=
  value.isNull || decide (target = .any) ||
    (match value, target with
    | .array _, .list _ => false
    | .map _, .map _ => false
    | value, target => decide (value.runtimeType = some target))

/-- The failure to convert a value. -/
def failed (target : FieldType) (value : Value) : MappingError :=
  .conversion target value.kindName

/-- Convert every item of a list. -/
def convertItems (convert : Value → Except MappingError Value) :
    List Value → Except MappingError (List Value)
  | [] => .ok []
  | item :: rest => do
    let item ← convert item
    let rest ← convertItems convert rest
    .ok (item :: rest)

/-- Convert every entry of a map; names and order stay. -/
def convertEntries (convert : Value → Except MappingError Value) :
    List (String × Value) → Except MappingError (List (String × Value))
  | [] => .ok []
  | (key, entry) :: rest => do
    let entry ← convert entry
    let rest ← convertEntries convert rest
    .ok ((key, entry) :: rest)

end Conversion

open Conversion in
/-- Convert a value to a declared type. -/
def convert (target : FieldType) (value : Value) : Except MappingError Value :=
  if settled value target then .ok value
  else
    match target with
    | .scalar type =>
      match toScalar type value with
      | some converted => .ok converted
      | none => .error (failed target value)
    | .list element =>
      match value with
      | .array items => (convertItems (convert element) items).map .array
      | single => (convert element single).map fun item => .array [item]
    | .map entryType =>
      match value with
      | .map entries => (convertEntries (convert entryType) entries).map .map
      | other => .error (failed target other)
    | .entity _ => .error (failed target value)
    | .any => .error (failed target value)

end EntityMapping
