import EntityMapping.Expression.Meaning
import EntityMapping.Stage.Writing
/-!
# The document a stage stands for

A stage stands for a document with one entry from its name to its payload.
Expressions in the payload stand for their own values, a filter for its
document, and settings that were not made are left out. A name that is given
twice keeps its first place and its last value.
-/

namespace EntityMapping

/-- The value of a group key; null when there is none or nothing was requested. -/
def Group.keyMeaning : Option (Accumulation Expression) → Bson
  | none => .null
  | some .empty => .null
  | some id => Expression.meaningSource id

/-- The value of the decision about a field. -/
def ProjectionEntry.meaning : ProjectionEntry → Bson
  | keep => .boolean true
  | leaveOut => .boolean false
  | computed expression => expression.meaning

/-- The value of an unwinding: the bare path, or a document when a setting was made. -/
def Unwind.meaning (unwind : Unwind) : Bson :=
  match unwind.includeArrayIndex, unwind.preserveNullAndEmptyArrays with
  | none, none => .string unwind.path
  | index, preserve => .document
    (("path", .string unwind.path) ::
      (Expression.optionalEntry "includeArrayIndex" (index.map .string) ++
        Expression.optionalEntry "preserveNullAndEmptyArrays" (preserve.map .boolean)))

namespace Stage

/-- The payload of a stage. -/
def payload : Stage → Bson
  | addFields fields => .document (Keyed.ofPairs (Expression.meaningEntries fields))
  | count name => .string name
  | group grouping => .document (Keyed.ofPairs
    (("_id", Group.keyMeaning grouping.id) :: Expression.meaningEntries grouping.fields))
  | limit amount => .int64 amount
  | select filter => .document filter.document
  | project projection => .document (Keyed.ofPairs
    (projection.entries.map fun entry => (entry.1, entry.2.meaning)))
  | sample size => .document [("size", .int64 size)]
  | skip amount => .int64 amount
  | sort fields => .document (Keyed.ofPairs (fields.map fun field => (field.1, field.2.toBson)))
  | unwind unwinding => unwinding.meaning

/-- The document a stage stands for. -/
def meaning (stage : Stage) : Document := [(stage.name, stage.payload)]

end Stage

end EntityMapping
