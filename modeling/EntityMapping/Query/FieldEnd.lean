import EntityMapping.Filter.Shape
import EntityMapping.Query.Basic
import EntityMapping.Text.Pattern
/-!
# Predicates on one field

A field end stands for one field of a query and adds predicates on it. Negation
is a switch: it holds for the predicates added after it was turned, and earlier
ones keep their state. Predicates about places refuse negation, and set
predicates refuse an empty set.
-/

namespace EntityMapping

/-- A predicate on a field. -/
inductive Predicate where
  /-- An operator with a value. -/
  | value (operator : FilterOperator) (content : Bson)
  /-- An operator with a set of values, which must not be empty. -/
  | values (operator : FilterOperator) (content : List Bson)
  /-- An operator about places, perhaps with further entries; it cannot be negated. -/
  | place (operator : FilterOperator) (content : Bson) (options : Option Document)

namespace Predicate

/-- The field equals a value. -/
def equal (content : Bson) : Predicate := value .equal content

/-- The field differs from a value. -/
def notEqual (content : Bson) : Predicate := value .notEqual content

/-- The field is greater than a value. -/
def greaterThan (content : Bson) : Predicate := value .greaterThan content

/-- The field is at least a value. -/
def greaterThanOrEqual (content : Bson) : Predicate := value .greaterThanOrEqual content

/-- The field is less than a value. -/
def lessThan (content : Bson) : Predicate := value .lessThan content

/-- The field is at most a value. -/
def lessThanOrEqual (content : Bson) : Predicate := value .lessThanOrEqual content

/-- The field is an array that holds a value. -/
def hasThisOne (content : Bson) : Predicate := value .equal content

/-- The field is or holds one of the values. -/
def hasAnyOf (content : List Bson) : Predicate := values .memberOf content

/-- The field is and holds none of the values. -/
def hasNoneOf (content : List Bson) : Predicate := values .notMemberOf content

/-- The field holds all of the values. -/
def hasAllOf (content : List Bson) : Predicate := values .containsAll content

/-- The field is there. -/
def isPresent : Predicate := value .present (.boolean true)

/-- The field is not there. -/
def isAbsent : Predicate := value .present (.boolean false)

/-- The field is an array with a count of items. -/
def hasSize (count : Int32) : Predicate := value .size (.int32 count)

/-- The number of an element type in a filter; the lowest one counts as minus one. -/
def typeNumber (kind : ElementType) : Int32 :=
  match kind with
  | .minKey => -1
  | other => Int32.ofNat other.code.toNat

/-- The field has an element type. -/
def hasType (kind : ElementType) : Predicate := value .type (.int32 (typeNumber kind))

/-- The field leaves a remainder when divided. -/
def modulo (divisor remainder : Int64) : Predicate :=
  value .mod (.array [.int64 divisor, .int64 remainder])

/-- The field is an array with an item that a query accepts. -/
def hasItem (query : Query) : Predicate := value .elemMatch (.document query.document)

/-- The field matches a pattern. -/
def pattern (text : String) (ignoreCase : Bool) : Predicate :=
  value .regex (.regex text (if ignoreCase then "i" else ""))

/-- The field starts with a text. -/
def startsWith (text : String) (ignoreCase : Bool) : Predicate :=
  pattern (Pattern.literal true text false) ignoreCase

/-- The field ends with a text. -/
def endsWith (text : String) (ignoreCase : Bool) : Predicate :=
  pattern (Pattern.literal false text true) ignoreCase

/-- The field contains a text. -/
def contains (text : String) (ignoreCase : Bool) : Predicate :=
  pattern (Pattern.literal false text false) ignoreCase

/-- The field is a text, in whatever case. -/
def equalIgnoreCase (text : String) : Predicate :=
  pattern (Pattern.literal true text true) true

/-- The further entry for a greatest distance. -/
def distance (limit : Option Binary64) : Option Document :=
  limit.map fun limit => [("$maxDistance", .double limit)]

/-- The field is near a point in the plane. -/
def near (point : Point) (limit : Option Binary64) : Predicate :=
  place .near point.toBson (distance limit)

/-- The field is near a point on the sphere. -/
def nearSphere (point : Point) (limit : Option Binary64) : Predicate :=
  place .nearSphere point.toBson (distance limit)

/-- The field lies in a shape. -/
def within (shape : Shape) : Predicate :=
  place .geoWithin (.document shape.document) none

end Predicate

/-- One field of a query, with the state of negation and checking. -/
structure FieldEnd where
  /-- The path as it was given. -/
  field : String
  /-- Whether the next predicate is negated. -/
  negated : Bool
  /-- Whether the path is to be checked. -/
  validating : Bool

namespace FieldEnd

/-- A field of a query, checked as the query says. -/
def ofQuery (query : Query) (field : String) : FieldEnd := ⟨field, false, query.validating⟩

/-- A field, checked or not. -/
def checked (field : String) (validating : Bool) : FieldEnd := ⟨field, false, validating⟩

/-- Turn negation over. -/
def negate (subject : FieldEnd) : FieldEnd := { subject with negated := !subject.negated }

end FieldEnd

/-- A field end and the query that gains its predicates. -/
structure OpenField where
  /-- The field end. -/
  subject : FieldEnd
  /-- The query. -/
  query : Query

/-- A request on an open field. The field end and the query are there beside the outcome, also
where the request is refused; a request that resolves a path without an end has no outcome. -/
abbrev FieldM := ExceptT QueryError (StateT OpenField Option)

namespace OpenField

/-- Turn negation over. -/
def negate : FieldM Unit := modify fun field => { field with subject := field.subject.negate }

/-- The document path of the field. -/
def translate : FieldM String := ExceptT.mk fun field =>
  (field.query.resolve field.subject.field field.subject.validating).map fun outcome =>
    (outcome, field)

/-- Append a criterion on the field. -/
def append (operator : FilterOperator) (content : Bson) (options : Option Document) :
    FieldM Unit := do
  let path ← translate
  modify fun field =>
    { field with query := field.query.add ⟨path, operator, content, options,
        field.subject.negated, field.subject.validating⟩ }

/-- Append a predicate on the field. -/
def add : Predicate → FieldM Unit
  | .value operator content => append operator content none
  | .values operator content =>
    if content.isEmpty then throw (.emptyValues operator.key)
    else append operator (.array content) none
  | .place operator content options => do
    let field ← get
    if field.subject.negated then throw (.negatedGeo field.subject.field)
    else append operator content options

/-- The outcome of a request on an open field, and the field after it. -/
def request {α : Type} (field : OpenField) (made : FieldM α) :
    Option (Except QueryError α × OpenField) :=
  made.run.run field

end OpenField

/-- Give up a query for the one with a predicate on a field, as a program asks for it. -/
def FieldEnd.apply (subject : FieldEnd) (query : Query) (added : Predicate) :
    Except QueryError Query :=
  have : Nonempty (Except QueryError Query) := ⟨.ok query⟩
  awaited (((OpenField.mk subject query).request (OpenField.add added)).map
    fun (outcome, field) => outcome.map fun () => field.query)

end EntityMapping
