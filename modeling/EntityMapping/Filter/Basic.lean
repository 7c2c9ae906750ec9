import EntityMapping.Bson.Basic
/-!
# Filters

A criterion says one thing about one field. A filter is a criterion or a group
of filters of which all or at least one must hold.
-/

namespace EntityMapping

/-- What a criterion says about its field. -/
inductive FilterOperator where
  | equal | notEqual | greaterThan | greaterThanOrEqual | lessThan | lessThanOrEqual
  | memberOf | notMemberOf | containsAll | present | size | type | mod | elemMatch | regex
  | near | nearSphere | geoWithin
  deriving DecidableEq

namespace FilterOperator

/-- The key of an operator in a filter document. -/
def key : FilterOperator → String
  | equal => "$eq"
  | notEqual => "$ne"
  | greaterThan => "$gt"
  | greaterThanOrEqual => "$gte"
  | lessThan => "$lt"
  | lessThanOrEqual => "$lte"
  | memberOf => "$in"
  | notMemberOf => "$nin"
  | containsAll => "$all"
  | present => "$exists"
  | size => "$size"
  | type => "$type"
  | mod => "$mod"
  | elemMatch => "$elemMatch"
  | regex => "$regex"
  | near => "$near"
  | nearSphere => "$nearSphere"
  | geoWithin => "$geoWithin"

/-- Whether an operator is about places. -/
def isGeo : FilterOperator → Bool
  | near => true
  | nearSphere => true
  | geoWithin => true
  | _ => false

/-- Every operator. -/
def all : List FilterOperator :=
  [equal, notEqual, greaterThan, greaterThanOrEqual, lessThan, lessThanOrEqual, memberOf,
   notMemberOf, containsAll, present, size, type, mod, elemMatch, regex, near, nearSphere,
   geoWithin]

/-- The operator with a given key. -/
def ofKey (text : String) : Option FilterOperator :=
  all.find? fun operator => decide (operator.key = text)

end FilterOperator

/-- One thing said about one field. -/
structure Criterion where
  /-- The document path of the field. -/
  field : String
  /-- What is said. -/
  operator : FilterOperator
  /-- The value it is said with. -/
  value : Bson
  /-- Further entries beside the operator. -/
  options : Option Document
  /-- Whether the opposite is said. -/
  negated : Bool
  /-- Whether the field was asked to be checked against an entity model. -/
  validated : Bool

/-- Of the parts of a group, all or at least one must hold. -/
inductive Join where
  | all | any
  deriving DecidableEq

/-- The word for a join. -/
def Join.name : Join → String
  | all => "and"
  | any => "or"

/-- A criterion or a group of filters. -/
inductive Filter where
  /-- One criterion. -/
  | criterion (single : Criterion)
  /-- A group. -/
  | group (join : Join) (parts : List Filter)

namespace Filter

mutual

/-- The criteria of a filter in order, those of nested groups included. -/
def criteria : Filter → List Criterion
  | .criterion single => [single]
  | .group _ parts => allCriteria parts

/-- The criteria of a list of filters in order. -/
def allCriteria : List Filter → List Criterion
  | [] => []
  | part :: rest => criteria part ++ allCriteria rest

end

end Filter

end EntityMapping
