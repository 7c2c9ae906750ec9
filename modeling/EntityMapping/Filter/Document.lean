import EntityMapping.Filter.Basic
/-!
# Filter documents

The document of a criterion has its field as the only entry. The parts of a
group of which all must hold are merged into one document: different entries
stand side by side, and operators on one field are joined as long as no
operator comes twice. Parts that cannot be merged are listed under an explicit
conjunction. A group without parts is the empty document.
-/

namespace EntityMapping

/-- The document of a criterion. -/
def Criterion.document (criterion : Criterion) : Document :=
  let predicate : Document :=
    Keyed.overlay [(criterion.operator.key, criterion.value)] (criterion.options.getD [])
  if criterion.negated then [(criterion.field, .document [("$not", .document predicate)])]
  else [(criterion.field, .document predicate)]

namespace Filter

/-- Whether every entry of a document is an operator, and there is one. -/
def isOperators (document : Document) : Bool :=
  !document.isEmpty && document.all fun entry => entry.1.toList.head? == some '$'

/-- The operators on a field joined with further ones, if no operator comes twice. -/
def mergeOperators (existing incoming : Bson) : Option Bson :=
  match existing, incoming with
  | .document existing, .document incoming =>
    if isOperators existing && isOperators incoming &&
        !(incoming.any fun entry => Keyed.has entry.1 existing) then
      some (.document (Keyed.overlay existing incoming))
    else none
  | _, _ => none

/-- Merge the entries of a part into a document. -/
def mergeEntries (merged : Document) : List (String × Bson) → Option Document
  | [] => some merged
  | (key, value) :: rest =>
    match Keyed.get? key merged with
    | none => mergeEntries (Keyed.insert key value merged) rest
    | some existing =>
      match mergeOperators existing value with
      | some joined => mergeEntries (Keyed.insert key joined merged) rest
      | none => none

/-- Merge parts into one document, if nothing collides. -/
def merge (merged : Document) : List Document → Option Document
  | [] => some merged
  | part :: rest =>
    match mergeEntries merged part with
    | some merged => merge merged rest
    | none => none

/-- Parts listed under an operator. -/
def joined (operator : String) (parts : List Document) : Document :=
  [(operator, .array (parts.map .document))]

/-- The document of a group, given those of its parts. -/
def groupDocument (join : Join) (parts : List Document) : Document :=
  match parts with
  | [] => []
  | parts =>
    match join with
    | .any => joined "$or" parts
    | .all => (merge [] parts).getD (joined "$and" parts)

mutual

/-- The document of a filter. -/
def document : Filter → Document
  | .criterion single => single.document
  | .group join parts => groupDocument join (documents parts)

/-- The documents of a list of filters. -/
def documents : List Filter → List Document
  | [] => []
  | part :: rest => document part :: documents rest

end

end Filter

end EntityMapping
