import EntityMapping.Mapping.Error
/-!
# Codecs and their registry

A codec is the plan by which the values of one declared type are written and
read. A registry knows the names of entities and makes a codec for every type
that names no other.
-/

namespace EntityMapping

/-- The plan for the values of one declared type. -/
inductive Codec where
  /-- Values of a scalar type. -/
  | scalar (type : ScalarType)
  /-- Lists whose elements share a codec. -/
  | list (element : Codec)
  /-- Maps whose values share a codec. -/
  | map (value : Codec)
  /-- Embedded entities declared as one model. -/
  | entity (name : String)
  /-- Values of any type. -/
  | any
  deriving DecidableEq, Inhabited

/-- The declared type that a codec is for. -/
def Codec.fieldType : Codec → FieldType
  | scalar type => .scalar type
  | list element => .list element.fieldType
  | map value => .map value.fieldType
  | entity name => .entity name
  | any => .any

/-- The names of the entities that codecs may refer to. -/
structure Registry where
  /-- The known names. -/
  entities : List String

namespace Registry

/-- Whether an entity is known. -/
def has (registry : Registry) (name : String) : Bool :=
  registry.entities.contains name

/-- The codec for a declared type; it fails at the first unknown entity. -/
def codec (registry : Registry) : FieldType → Except MappingError Codec
  | .scalar type => .ok (.scalar type)
  | .list element => (registry.codec element).map .list
  | .map value => (registry.codec value).map .map
  | .entity name => if registry.has name then .ok (.entity name) else .error (.noCodec name)
  | .any => .ok .any

/-- The codec for lists has the codec for what is in them. -/
theorem codec_list {registry : Registry} {type : FieldType} {codec : Codec}
    (known : registry.codec type = .ok codec) :
    registry.codec (.list type) = .ok (.list codec) := by
  rw [Registry.codec, known]
  rfl

/-- The codec for maps has the codec for their values. -/
theorem codec_map {registry : Registry} {type : FieldType} {codec : Codec}
    (known : registry.codec type = .ok codec) :
    registry.codec (.map type) = .ok (.map codec) := by
  rw [Registry.codec, known]
  rfl

/-- The codec for an entity is for that entity, which is known. -/
theorem codec_entity {registry : Registry} {name : String} {codec : Codec}
    (found : registry.codec (.entity name) = .ok codec) :
    codec = .entity name ∧ registry.has name = true := by
  unfold Registry.codec at found
  split at found
  · rename_i has
    exact ⟨(Except.ok.inj found).symm, has⟩
  · cases found

/-- A codec is for the type it was asked for. -/
theorem fieldType_codec {registry : Registry} {type : FieldType} {codec : Codec}
    (found : registry.codec type = .ok codec) : codec.fieldType = type := by
  induction type generalizing codec with
  | scalar type =>
    simp only [Registry.codec, Except.ok.injEq] at found
    rw [← found, Codec.fieldType]
  | list element ih =>
    cases inner : registry.codec element with
    | error cause => simp [Registry.codec, inner, Except.map] at found
    | ok part =>
      simp only [Registry.codec, inner, Except.map, Except.ok.injEq] at found
      rw [← found, Codec.fieldType, ih inner]
  | map value ih =>
    cases inner : registry.codec value with
    | error cause => simp [Registry.codec, inner, Except.map] at found
    | ok part =>
      simp only [Registry.codec, inner, Except.map, Except.ok.injEq] at found
      rw [← found, Codec.fieldType, ih inner]
  | entity name => rw [(codec_entity found).1, Codec.fieldType]
  | any =>
    simp only [Registry.codec, Except.ok.injEq] at found
    rw [← found, Codec.fieldType]

end Registry

end EntityMapping
