import EntityMapping.Expression.Writing
import EntityMapping.Filter.Document
import EntityMapping.Stage.Basic
/-!
# Writing stages and pipelines

A stage is written event by event as a document with one entry. A pipeline
becomes one document for each stage, in order.
-/

namespace EntityMapping

open Writer

/-- Write the key of a grouping; null when there is none or nothing was requested. -/
def Group.writeKey : Option (Accumulation Expression) → WriteM Unit
  | none => writeValue .null
  | some .empty => writeValue .null
  | some id => Expression.writeSource id

/-- Write the decision about a field of a projection. -/
def ProjectionEntry.write : ProjectionEntry → WriteM Unit
  | keep => writeValue (.boolean true)
  | leaveOut => writeValue (.boolean false)
  | computed expression => expression.write

/-- Write the decisions of a projection. -/
def Projection.writeEntries : List (String × ProjectionEntry) → WriteM Unit
  | [] => pure ()
  | (name, decision) :: rest => do
    writeName name
    decision.write
    writeEntries rest

/-- The value an order is written as. -/
def SortOrder.toBson : SortOrder → Bson
  | ascending => .int32 1
  | descending => .int32 (-1)
  | textScore => .document [("$meta", .string "textScore")]

/-- Write the fields of an order. -/
def SortOrder.writeEntries : List (String × SortOrder) → WriteM Unit
  | [] => pure ()
  | (name, order) :: rest => do
    writeField name order.toBson
    writeEntries rest

/-- Write an unwinding: the bare path, or a document when a setting was made. -/
def Unwind.write (unwind : Unwind) : WriteM Unit :=
  match unwind.includeArrayIndex, unwind.preserveNullAndEmptyArrays with
  | none, none => writeValue (.string unwind.path)
  | index, preserve => inDocument do
    writeField "path" (.string unwind.path)
    writeOptional "includeArrayIndex" (index.map .string)
    writeOptional "preserveNullAndEmptyArrays" (preserve.map .boolean)

namespace Stage

/-- Write the payload of a stage. -/
def writePayload : Stage → WriteM Unit
  | addFields fields => inDocument (Expression.writeEntries fields)
  | count name => writeValue (.string name)
  | group grouping => inDocument do
    writeName "_id"
    Group.writeKey grouping.id
    Expression.writeEntries grouping.fields
  | limit amount => writeValue (.int64 amount)
  | select filter => writeValue (.document filter.document)
  | project projection => inDocument (Projection.writeEntries projection.entries)
  | sample size => inDocument (writeField "size" (.int64 size))
  | skip amount => writeValue (.int64 amount)
  | sort fields => inDocument (SortOrder.writeEntries fields)
  | unwind unwinding => unwinding.write

/-- Write a stage as the next value. -/
def write (stage : Stage) : WriteM Unit := inDocument do
  writeName stage.name
  stage.writePayload

/-- The document that a stage is written as. -/
def document (stage : Stage) : Except AggregationError Document :=
  match stage.write.run.run Writer.empty with
  | (.ok _, writer) => writer.document?.mapError .document
  | (.error cause, _) => .error (.document cause)

end Stage

/-- A list of stages. -/
abbrev Pipeline := List Stage

/-- The documents of the stages of a pipeline, in order. -/
def Pipeline.compile (pipeline : Pipeline) : Except AggregationError (List Document) :=
  pipeline.mapM Stage.document

end EntityMapping
