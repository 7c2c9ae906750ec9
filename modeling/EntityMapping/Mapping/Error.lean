import EntityMapping.FieldType
import EntityMapping.Lifecycle.Kind
import EntityMapping.Options.Basic
import EntityMapping.Stream.Error
/-!
# What can go wrong while entities are mapped

The causes of a refused setup and of a failed encoding or decoding. Failures of
a field carry the failure of its value as their source.
-/

namespace EntityMapping

/-- Why a model or a mapper is refused. -/
inductive SetupFault where
  /-- The options are unusable. -/
  | options (fault : OptionsFault)
  /-- A model has more than one id field. -/
  | manyIds (entity : String) (count : Nat)
  /-- Two fields of a model are stored under one name. -/
  | sharedName (entity documentName : String)
  /-- A field is stored under the discriminator key of its model. -/
  | keyCollision (key entity field : String)
  /-- Two models have one name. -/
  | registeredTwice (entity : String)
  /-- The type of a field names an entity that is not registered. -/
  | unknownType (entity field typeName : String)
  /-- A discriminator stands for two entities. -/
  | sharedDiscriminator (value first second : String)
  /-- A hook reports a setup it cannot work with. -/
  | reported (text : String)
  deriving DecidableEq

/-- The cause of a failed mapping step. -/
inductive MappingError where
  /-- The setup of a model or a mapper is refused. -/
  | configuration (fault : SetupFault)
  /-- No codec or model is known for a type. -/
  | noCodec (typeName : String)
  /-- A stored discriminator stands for no entity. -/
  | unknownDiscriminator (entity value : String)
  /-- A discriminator is declared for something that is no mapped entity. -/
  | nonEntityDiscriminator (value target : String)
  /-- A value does not fit the codec it was given to. -/
  | unexpectedValue (expected : FieldType) (found : String)
  /-- A stored value cannot be turned into the declared type. -/
  | conversion (target : FieldType) (found : String)
  /-- The value of a field could not be encoded. -/
  | encoding (entity field : String) (source : MappingError)
  /-- The value of a field could not be decoded. -/
  | decoding (entity field : String) (source : MappingError)
  /-- A hook or interceptor failed. -/
  | hook (kind : HookKind) (entity reason : String)
  /-- Writing or reading the document failed. -/
  | document (cause : DocumentError)
  /-- Documents or hooks are nested deeper than the step allows. -/
  | nestedTooDeep

namespace SetupFault

/-- The wording of a refused setup. -/
def message : SetupFault → String
  | options fault => fault.message
  | manyIds entity count => s!"entity '{entity}' declares {count} id properties"
  | sharedName entity documentName =>
    s!"entity '{entity}' maps more than one property to '{documentName}'"
  | keyCollision key entity field =>
    s!"discriminator key '{key}' of entity '{entity}' collides with property '{field}'"
  | registeredTwice entity => s!"entity '{entity}' registered twice"
  | unknownType entity field typeName =>
    s!"property '{entity}.{field}': no codec registered for type '{typeName}'"
  | sharedDiscriminator value first second =>
    s!"discriminator '{value}' is used by both '{first}' and '{second}'"
  | reported text => text

end SetupFault

namespace MappingError

/-- The short name of a cause, by which callers tell causes apart; a failure that has
another as its source shows the way down to it. -/
def kind : MappingError → String
  | configuration _ => "Configuration"
  | noCodec _ => "NoCodec"
  | unknownDiscriminator _ _ => "UnknownDiscriminator"
  | nonEntityDiscriminator _ _ => "NonEntityDiscriminator"
  | unexpectedValue _ _ => "UnexpectedValue"
  | conversion _ _ => "Conversion"
  | encoding _ _ source => "Encoding/" ++ kind source
  | decoding _ _ source => "Decoding/" ++ kind source
  | hook _ _ _ => "Hook"
  | document cause => "Document/" ++ cause.kind
  | nestedTooDeep => "NestedTooDeep"

/-- The wording of a failed mapping step. -/
def message : MappingError → String
  | configuration fault => "configuration error: " ++ fault.message
  | noCodec typeName => s!"no codec registered for type '{typeName}'"
  | unknownDiscriminator entity value =>
    s!"no entity registered for discriminator '{value}' while decoding '{entity}'"
  | nonEntityDiscriminator value target =>
    s!"discriminator '{value}' refers to '{target}', which is not a mapped entity"
  | unexpectedValue expected found => "cannot encode " ++ found ++ " value as " ++ expected.text
  | conversion target found => "cannot convert " ++ found ++ " value to " ++ target.text
  | encoding entity field source =>
    "failed to encode '" ++ entity ++ "." ++ field ++ "': " ++ message source
  | decoding entity field source =>
    "failed to decode '" ++ entity ++ "." ++ field ++ "': " ++ message source
  | hook kind entity reason => kind.name ++ " hook failed on '" ++ entity ++ "': " ++ reason
  | document cause => cause.message
  | nestedTooDeep => "nested too deeply"

/-- Whether the failure only says that a stored value had another type; a failure of
a field does not count. -/
def isTypeMismatch : MappingError → Bool
  | document cause => cause.isTypeMismatch
  | _ => false

end MappingError

end EntityMapping
