import EntityMapping.Mapper.Basic
import EntityMapping.Text.Integer
/-!
# Property paths and document paths

A dotted path of property names is resolved to the keys the properties are
stored under. Lists are passed through, array positions and map keys stay as
they are, fields of subtypes are found where the declared model lacks them, and
nothing is checked below a field of any type. Resolving stops at the
first segment that cannot be found; it and all after it stay as written.
-/

namespace EntityMapping

/-- The outcome of resolving a path. -/
structure ResolvedPath where
  /-- The segments in document names. -/
  segments : List String
  /-- The declared type of the last property or map value that was found. -/
  type : Option FieldType
  /-- The first segment that was not found. -/
  unresolved : Option String
deriving Nonempty

namespace ResolvedPath

/-- Whether every segment was found. -/
def isResolved (path : ResolvedPath) : Bool := path.unresolved.isNone

/-- The resolved path with dots between its segments. -/
def text (path : ResolvedPath) : String :=
  String.intercalate "." path.segments

/-- The outcome with a segment in front. -/
def behind (segment : String) (path : ResolvedPath) : ResolvedPath :=
  { path with segments := segment :: path.segments }

end ResolvedPath

/-- Where the next segment of a path is looked up. -/
inductive PathScope where
  /-- Among the fields of an entity. -/
  | entity (name : String)
  /-- Among the keys of a map with values of one type. -/
  | map (value : FieldType)
  /-- Anywhere: nothing is declared here. -/
  | anything
  /-- Nowhere: a scalar has no parts. -/
  | nothing

/-- The scope below a value of a declared type. -/
def PathScope.below : FieldType → PathScope
  | .entity name => .entity name
  | .list element => below element
  | .map value => .map value
  | .any => .anything
  | .scalar _ => .nothing

namespace Path

/-- The segments between the dots. -/
def splitDots : List Char → List (List Char)
  | [] => [[]]
  | c :: rest =>
    if c = '.' then [] :: splitDots rest
    else
      match splitDots rest with
      | first :: others => (c :: first) :: others
      | [] => [[c]]

/-- The segments of a dotted path. -/
def segments (path : String) : List String :=
  (splitDots path.toList).map String.ofList

/-- Whether characters spell a number below two to the sixty-fourth. -/
def isIndex (characters : List Char) : Bool :=
  let digits :=
    match characters with
    | '+' :: rest => rest
    | rest => rest
  match Integer.readNatural digits with
  | some value => decide (value < 18446744073709551616)
  | none => false

/-- Whether a segment stands for an array position: a number, a dollar sign, or one
followed by a bracket. -/
def isPositional (segment : String) : Bool :=
  match segment.toList with
  | ['$'] => true
  | '$' :: '[' :: _ => true
  | characters => isIndex characters

end Path

namespace Mapper

/-- The field that a segment names in an entity, or else in one of its subtypes. There is no answer
where the subtypes are asked for and the walks that find them do not end. -/
def findField (mapper : Mapper) (entity segment : String) : Option (Option Field) :=
  match mapper.model? entity with
  | none => some none
  | some model =>
    match model.field segment with
    | some found => some (some found)
    | none => do
      let subtypes ← mapper.subtypes? entity
      pure (subtypes.findSome? fun subtype => subtype.field segment)

/-- Resolve segments from a scope on, given the type found so far, if the search for each of the
fields ends. -/
def resolveFrom (mapper : Mapper) :
    PathScope → Option FieldType → List String → Option ResolvedPath
  | _, type, [] => some ⟨[], type, none⟩
  | .map value, _, segment :: rest =>
    (mapper.resolveFrom (.below value) (some value) rest).map (.behind segment)
  | scope, type, segment :: rest =>
    if Path.isPositional segment then (mapper.resolveFrom scope type rest).map (.behind segment)
    else
      match scope with
      | .entity name =>
        match mapper.findField name segment with
        | none => none
        | some none => some ⟨segment :: rest, type, some segment⟩
        | some (some field) =>
          (mapper.resolveFrom (.below field.type) (some field.type) rest).map
            (.behind field.documentName)
      | .anything => (mapper.resolveFrom scope none rest).map (.behind segment)
      | _ => some ⟨segment :: rest, type, some segment⟩

/-- Resolve a path of properties of an entity, if that ends. -/
def resolvePath? (mapper : Mapper) (entity path : String) : Option ResolvedPath :=
  mapper.resolveFrom (.entity entity) none (Path.segments path)

/-- Resolve a path of properties of an entity, as a program asks for it. -/
def resolvePath (mapper : Mapper) (entity path : String) : ResolvedPath :=
  awaited (mapper.resolvePath? entity path)

end Mapper

end EntityMapping
