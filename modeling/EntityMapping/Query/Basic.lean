import EntityMapping.Filter.Document
import EntityMapping.Mapper.Path
import EntityMapping.Stream.Writer
/-!
# Queries

A query collects filters that are joined by all or any. It may be bound to an
entity of a mapper; the paths of its criteria are then resolved to document
paths, and refused when they are unknown and the criterion asks for checking.
-/

namespace EntityMapping

/-- The cause of a failed step while a query is built or written. -/
inductive QueryError where
  /-- A criterion about places cannot be negated. -/
  | negatedGeo (field : String)
  /-- A path is unknown to the entity. -/
  | invalidField (entity path : String)
  /-- An operator was given no values. -/
  | emptyValues (operation : String)
  /-- The entity is not registered. -/
  | unknownEntity (name : String)
  /-- Writing the document failed. -/
  | document (cause : DocumentError)

/-- The short name of a cause, by which callers tell causes apart. -/
def QueryError.kind : QueryError → String
  | negatedGeo _ => "NegatedGeo"
  | invalidField _ _ => "InvalidField"
  | emptyValues _ => "EmptyValues"
  | unknownEntity _ => "UnknownEntity"
  | document cause => "Document/" ++ cause.kind

/-- The wording of a failed step. -/
def QueryError.message : QueryError → String
  | negatedGeo field => s!"geospatial criteria on '{field}' cannot be negated"
  | invalidField entity path => s!"'{path}' is not a valid path on entity {entity}"
  | emptyValues operation => operation ++ " requires at least one value"
  | unknownEntity name => "unknown entity: " ++ name
  | document cause => cause.message

/-- The entity a query is about. -/
structure Binding where
  /-- The mapper that knows the entity. -/
  mapper : Mapper
  /-- The name of the entity. -/
  entity : String

/-- A group of filters under construction. -/
structure Query where
  /-- Whether all or any of the parts must hold. -/
  join : Join
  /-- The parts in order. -/
  parts : List Filter
  /-- The entity the query is about. -/
  binding : Option Binding
  /-- Whether criteria check their paths unless they are told otherwise. -/
  validating : Bool

namespace Query

/-- A query about no entity in particular; paths are used as written. -/
def unbound : Query := ⟨.all, [], none, false⟩

/-- A query about a registered entity; it checks paths if the options say so. -/
def forEntity (mapper : Mapper) (entity : String) : Except QueryError Query :=
  match mapper.model? entity with
  | some _ => .ok ⟨.all, [], some ⟨mapper, entity⟩, mapper.options.validateQueries⟩
  | none => .error (.unknownEntity entity)

/-- An empty query about the same entity. -/
def child (query : Query) : Query :=
  ⟨.all, [], query.binding, query.validating⟩

/-- The filter of a query. -/
def filter (query : Query) : Filter := .group query.join query.parts

/-- The filter document of a query. -/
def document (query : Query) : Document := query.filter.document

/-- The criteria of a query in order, those of nested groups included. -/
def criteria (query : Query) : List Criterion := query.filter.criteria

/-- Append a criterion. -/
def add (query : Query) (criterion : Criterion) : Query :=
  { query with parts := query.parts ++ [.criterion criterion] }

/-- Append a group of queries. -/
def nest (query : Query) (join : Join) (children : List Query) : Query :=
  { query with parts := query.parts ++ [.group join (children.map filter)] }

/-- The document path of a property path, refused if it is unknown and is to be
checked. There is no outcome where resolving the path does not end, checked or not. -/
def resolve (query : Query) (path : String) (validating : Bool) :
    Option (Except QueryError String) :=
  match query.binding with
  | none => some (.ok path)
  | some binding => do
    let resolved ← binding.mapper.resolvePath? binding.entity path
    if validating && !resolved.isResolved then
      pure (.error (.invalidField binding.entity path))
    else pure (.ok resolved.text)

/-- Write named values into the open document. -/
def writeEntries : List (String × Bson) → WriteM Unit
  | [] => pure ()
  | (name, value) :: rest => do
    Writer.writeField name value
    writeEntries rest

/-- Write the entries of the filter document into the open document. -/
def write (query : Query) : WriteM Unit := writeEntries query.document

end Query

end EntityMapping
