import EntityMapping.Expression.Basic
import EntityMapping.Filter.Basic
/-!
# Pipeline stages

A stage is written as a document with one entry from the name of the stage to
its payload. A pipeline is a list of stages.
-/

namespace EntityMapping

/-- The grouping of documents: a key and computed output fields. -/
structure Group where
  /-- The source of the group key; without one, all documents are one group. -/
  id : Option (Accumulation Expression)
  /-- The output fields in the order of their first use. -/
  fields : Keyed Expression

namespace Group

/-- A grouping with a key and no output fields yet. -/
def keyed (id : Option (Accumulation Expression)) : Group := ⟨id, []⟩

/-- Add or replace an output field. -/
def withField (group : Group) (name : String) (accumulator : Expression) : Group :=
  { group with fields := Keyed.insert name accumulator group.fields }

/-- Add a named part to a group key. -/
def addKeyField (id : Accumulation Expression) (name : String) (expression : Expression) :
    Except AggregationError (Accumulation Expression) :=
  id.addField "_id" name expression

/-- Make one expression the group key. -/
def setKey (id : Accumulation Expression) (expression : Expression) :
    Except AggregationError (Accumulation Expression) :=
  id.setSingle "_id" expression

end Group

/-- What becomes of one field in a projection. -/
inductive ProjectionEntry where
  /-- The field is kept. -/
  | keep
  /-- The field is left out. -/
  | leaveOut
  /-- The field is computed. -/
  | computed (expression : Expression)

/-- Fields to keep, leave out or compute, in order. -/
structure Projection where
  /-- The entries, one for each name. -/
  entries : List (String × ProjectionEntry)

namespace Projection

/-- A projection without entries. -/
def empty : Projection := ⟨[]⟩

/-- Decide about a field; an earlier decision is dropped and the new one comes last. -/
def entry (projection : Projection) (name : String) (decision : ProjectionEntry) : Projection :=
  ⟨Keyed.remove name projection.entries ++ [(name, decision)]⟩

/-- Leave out the id. -/
def suppressId (projection : Projection) : Projection :=
  projection.entry "_id" .leaveOut

end Projection

/-- How documents are ordered by one field. -/
inductive SortOrder where
  | ascending | descending | textScore
  deriving DecidableEq

/-- The unwinding of an array. -/
structure Unwind where
  /-- The path of the array, with its dollar sign. -/
  path : String
  /-- The field that takes the index of an item. -/
  includeArrayIndex : Option String
  /-- Whether documents without items are kept. -/
  preserveNullAndEmptyArrays : Option Bool

/-- Unwind the array at a path; a dollar sign in front is added when it is missing. -/
def Unwind.at (path : String) : Unwind :=
  ⟨if path.toList.head? == some '$' then path else "$" ++ path, none, none⟩

/-- One stage of a pipeline. -/
inductive Stage where
  /-- Add computed fields. -/
  | addFields (fields : Keyed Expression)
  /-- Count documents into a field. -/
  | count (name : String)
  /-- Group documents. -/
  | group (grouping : Group)
  /-- Keep the first documents. -/
  | limit (amount : Int64)
  /-- Keep the documents that a filter accepts. -/
  | select (filter : Filter)
  /-- Choose the fields of documents. -/
  | project (projection : Projection)
  /-- Keep documents chosen at random. -/
  | sample (size : Int64)
  /-- Drop the first documents. -/
  | skip (amount : Int64)
  /-- Order documents by fields, most important first. -/
  | sort (fields : List (String × SortOrder))
  /-- One document for each item of an array. -/
  | unwind (unwinding : Unwind)

/-- The name of a stage. -/
def Stage.name : Stage → String
  | addFields _ => "$addFields"
  | count _ => "$count"
  | group _ => "$group"
  | limit _ => "$limit"
  | select _ => "$match"
  | project _ => "$project"
  | sample _ => "$sample"
  | skip _ => "$skip"
  | sort _ => "$sort"
  | unwind _ => "$unwind"

end EntityMapping
