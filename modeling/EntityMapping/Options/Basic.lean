/-!
# Options of a mapper

Settings shared by every entity of a mapper, with their defaults and the rule
for a usable discriminator key.
-/

namespace EntityMapping

/-- Settings of a mapper. -/
structure Options where
  /-- The document key for discriminators of models that declare none. -/
  discriminatorKey : String
  /-- Whether null properties are written instead of left out. -/
  storeNulls : Bool
  /-- Whether empty lists and maps are written instead of left out. -/
  storeEmpties : Bool
  /-- Whether criteria on unknown paths are refused. -/
  validateQueries : Bool
  /-- Whether top-level entities without an id are given one. -/
  generateIds : Bool
  deriving DecidableEq

/-- Why options are unusable. -/
inductive OptionsFault where
  | emptyKey
  | unusableKey (key : String)
  deriving DecidableEq

/-- The wording of unusable options. -/
def OptionsFault.message : OptionsFault → String
  | emptyKey => "invalid mapper options: discriminator_key must not be empty"
  | unusableKey key =>
    s!"invalid mapper options: discriminator_key '{key}' is not a valid field name"

namespace Options

/-- The settings that hold unless others are given. -/
def standard : Options := ⟨"_t", false, false, true, true⟩

/-- A key is usable when it is not empty, holds no dot and does not begin with a
dollar sign. -/
def check (options : Options) : Except OptionsFault Unit :=
  let key := options.discriminatorKey.toList
  if key.isEmpty then .error .emptyKey
  else if key.contains '.' || key.head? == some '$' then
    .error (.unusableKey options.discriminatorKey)
  else .ok ()

end Options

end EntityMapping
