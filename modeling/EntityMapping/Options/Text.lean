import EntityMapping.Options.Basic
import EntityMapping.Text.Json
/-!
# Options as JSON text

Options are read from an object, where unknown members are ignored and missing
ones keep their defaults, or from an array of settings in a fixed order that
may stop early. They are written as an object with one setting per line.
-/

namespace EntityMapping.Options

/-- Why no options could be read from a text. -/
inductive TextFault where
  /-- The text is no JSON, or its values have the wrong types. -/
  | malformed
  /-- The text was read but the options are unusable. -/
  | unusable (fault : OptionsFault)

/-- A truth value of a JSON tree. -/
def bool? : Json.Tree → Option Bool
  | .bool value => some value
  | _ => none

/-- A text of a JSON tree. -/
def text? : Json.Tree → Option String
  | .string pieces => Json.text? pieces
  | _ => none

/-- Replace one setting by the value of a member; a name that is no setting changes
nothing. -/
def withMember (options : Options) (name : String) (value : Json.Tree) : Option Options :=
  match name with
  | "discriminator_key" =>
    (text? value).map fun key => { options with discriminatorKey := key }
  | "store_nulls" => (bool? value).map fun on => { options with storeNulls := on }
  | "store_empties" => (bool? value).map fun on => { options with storeEmpties := on }
  | "validate_queries" => (bool? value).map fun on => { options with validateQueries := on }
  | "generate_ids" => (bool? value).map fun on => { options with generateIds := on }
  | _ => some options

/-- The names of the settings in their fixed order. -/
def settings : List String :=
  ["discriminator_key", "store_nulls", "store_empties", "validate_queries", "generate_ids"]

/-- Apply the members of an object; no setting may come twice. -/
def ofMembers (options : Options) (seen : List String) :
    List (List Json.Piece × Json.Tree) → Option Options
  | [] => some options
  | (pieces, value) :: rest => do
    let name ← Json.text? pieces
    if seen.contains name then none
    else
      let options ← withMember options name value
      ofMembers options (if settings.contains name then name :: seen else seen) rest

/-- Apply the items of an array to the settings in their order. -/
def ofItems (options : Options) : List String → List Json.Tree → Option Options
  | _, [] => some options
  | [], _ :: _ => none
  | name :: names, value :: rest => do
    let options ← withMember options name value
    ofItems options names rest

/-- The options in a JSON tree. -/
def ofTree : Json.Tree → Option Options
  | .object members => ofMembers standard [] members
  | .array items => ofItems standard settings items
  | _ => none

/-- The usable options in a text. -/
def ofText (text : String) : Except TextFault Options :=
  match (Json.read text).bind ofTree with
  | none => .error .malformed
  | some options =>
    match options.check with
    | .ok _ => .ok options
    | .error fault => .error (.unusable fault)

/-- A truth value as JSON text. -/
def boolText (value : Bool) : String :=
  if value then "true" else "false"

/-- Options as JSON text. -/
def text (options : Options) : String :=
  "\x7b\n  \"discriminator_key\": " ++ Json.quote options.discriminatorKey ++
  ",\n  \"store_nulls\": " ++ boolText options.storeNulls ++
  ",\n  \"store_empties\": " ++ boolText options.storeEmpties ++
  ",\n  \"validate_queries\": " ++ boolText options.validateQueries ++
  ",\n  \"generate_ids\": " ++ boolText options.generateIds ++ "\n\x7d"

end EntityMapping.Options
