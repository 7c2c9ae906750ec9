import EntityMapping.Bson.Basic
/-!
# Documents as token streams

A value laid out flat: the boundaries of documents and arrays, the names of
entries, and scalars. Reading walks such a stream.
-/

namespace EntityMapping

/-- Where a document or array begins or ends. -/
inductive Boundary where
  | startDocument | endDocument | startArray | endArray
  deriving DecidableEq

/-- The words for a boundary in messages. -/
def Boundary.text : Boundary → String
  | startDocument => "start of document"
  | endDocument => "end of document"
  | startArray => "start of array"
  | endArray => "end of array"

/-- One element of a flat document. -/
inductive Token where
  /-- The begin or end of a document or array. -/
  | boundary (kind : Boundary)
  /-- The name of the next entry. -/
  | name (label : String)
  /-- A value that is neither a document nor an array. -/
  | scalar (value : Bson)

namespace Token

/-- The type of the value that starts at a token, if one does. -/
def elementType? : Token → Option ElementType
  | boundary .startDocument => some .embeddedDocument
  | boundary .startArray => some .array
  | scalar value => some value.elementType
  | _ => none

/-- The words for a token in messages. -/
def text : Token → String
  | boundary kind => kind.text
  | name label => "field name '" ++ label ++ "'"
  | scalar value => value.elementType.name ++ " value"

/-- How many scopes are open after a token, given how many were before it. -/
def depthAfter (depth : Nat) : Token → Nat
  | boundary .startDocument => depth + 1
  | boundary .startArray => depth + 1
  | boundary .endDocument => depth - 1
  | boundary .endArray => depth - 1
  | _ => depth

end Token

namespace Bson

mutual

/-- The tokens of a value. -/
def tokens : Bson → List Token
  | .array items => .boundary .startArray :: (itemTokens items ++ [.boundary .endArray])
  | .document entries =>
    .boundary .startDocument :: (entryTokens entries ++ [.boundary .endDocument])
  | value => [.scalar value]

/-- The tokens of the items of an array, one item after the other. -/
def itemTokens : List Bson → List Token
  | [] => []
  | item :: rest => tokens item ++ itemTokens rest

/-- The tokens of the entries of a document, each name before its value. -/
def entryTokens : List (String × Bson) → List Token
  | [] => []
  | (key, value) :: rest => .name key :: (tokens value ++ entryTokens rest)

end

end Bson

end EntityMapping
