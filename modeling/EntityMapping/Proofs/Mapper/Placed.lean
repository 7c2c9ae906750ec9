import EntityMapping.Proofs.Mapper.Sound
import EntityMapping.Proofs.Value.Induction
/-!
# Values in their places

What a value must be like to come back from its stored form. By itself it is
regular: no number in it is a NaN, names in maps and entities are distinct, and no
property is null. Against a mapper it is placed: at every depth entities are of
registered kinds and hold only properties that their models declare, and an entity
of another kind than declared shares the key of its discriminator with the declared
one, so that the stored discriminator is found.
-/

namespace EntityMapping

/-- Whether a declared type lets anything in at some depth. -/
def FieldType.hasAny : FieldType → Bool
  | any => true
  | list element => hasAny element
  | map element => hasAny element
  | _ => false

/-- A value without a NaN at any depth. Names in it are distinct and no property is null, as in
every value whose properties were set one by one. -/
inductive Value.Regular : Value → Prop where
  /-- A value without parts is no NaN. -/
  | single {value : Value} (simple : value.isSingle = true)
    (number : ∀ double, value = .double double → double.isNaN = false) : Regular value
  /-- A list of regular items. -/
  | array {items : List Value} (each : ∀ item ∈ items, Regular item) : Regular (.array items)
  /-- A map of regular values. -/
  | map {entries : List (String × Value)} (apart : Keyed.Distinct entries)
    (each : ∀ entry ∈ entries, Regular entry.2) : Regular (.map entries)
  /-- An entity with regular properties, none of them null. -/
  | entity {kind : String} {properties : List (String × Value)}
    (apart : Keyed.Distinct properties) (filled : ∀ entry ∈ properties, entry.2 ≠ .null)
    (each : ∀ entry ∈ properties, Regular entry.2) : Regular (.entity kind properties)

namespace Value.Regular

/-- An entity without properties is regular. -/
theorem empty (kind : String) : (Value.ofEntity (.empty kind)).Regular :=
  .entity List.nodup_nil (fun _ => nofun) fun _ => nofun

/-- An entity stays regular when a property is set to a regular value. -/
theorem set {entity : Entity} {value : Value} (regular : (Value.ofEntity entity).Regular)
    (property : String) (fits : value.Regular) :
    (Value.ofEntity (entity.set property value)).Regular := by
  cases regular with
  | single simple => cases simple
  | entity apart filled each =>
    refine .entity (Entity.distinct_set apart property value) (fun entry member => ?_)
      fun entry member => ?_
    · rcases Entity.mem_set member with ⟨rfl, present⟩ | before
      · exact present
      · exact filled entry before
    · rcases Entity.mem_set member with ⟨rfl, -⟩ | before
      · exact fits
      · exact each entry before

end Value.Regular

namespace Mapper

/-- An entity of a kind may stand where another kind is declared: it is that kind, or both
kinds use discriminators under one key. -/
def Compatible (mapper : Mapper) (kind declared : String) : Prop :=
  kind = declared ∨ ∃ model other key, mapper.model? kind = some model ∧
    mapper.model? declared = some other ∧ model.activeKey = some key ∧ other.activeKey = some key

/-- A value in a position of a declared type: every entity in it is of a registered kind that
may stand where it stands, and holds only properties that its model declares. -/
inductive Placed (mapper : Mapper) : Value → FieldType → Prop where
  /-- A value without parts may stand anywhere. -/
  | single {value : Value} (simple : value.isSingle = true) (type : FieldType) :
    Placed mapper value type
  /-- The items of a list stand where elements are declared. -/
  | array {items : List Value} {type : FieldType}
    (each : ∀ element, type = .list element → ∀ item ∈ items, Placed mapper item element) :
    Placed mapper (.array items) type
  /-- The values of a map stand where elements are declared. -/
  | map {entries : List (String × Value)} {type : FieldType}
    (each : ∀ element, type = .map element → ∀ entry ∈ entries, Placed mapper entry.2 element) :
    Placed mapper (.map entries) type
  /-- The properties of an entity stand where fields of their names are declared. -/
  | entity {kind : String} {properties : List (String × Value)} {type : FieldType}
    {model : EntityModel} (compatible : ∀ name, type = .entity name → mapper.Compatible kind name)
    (found : mapper.model? kind = some model)
    (declared : ∀ entry ∈ properties, entry.1 ∈ model.fields.map Field.name)
    (each : ∀ entry ∈ properties, ∀ field ∈ model.fields, field.name = entry.1 →
      Placed mapper entry.2 field.type) : Placed mapper (.entity kind properties) type

namespace Placed

variable {mapper : Mapper} {type : FieldType}

/-- An entity without properties is in its place where its kind is. -/
theorem empty {kind : String} {model : EntityModel} (found : mapper.model? kind = some model)
    (compatible : ∀ name, type = .entity name → mapper.Compatible kind name) :
    mapper.Placed (.ofEntity (.empty kind)) type :=
  .entity compatible found (fun _ => nofun) fun _ => nofun

/-- An entity stays in its place when a property that its model declares is set to a value that
is in its own. -/
theorem set {entity : Entity} {model : EntityModel} {property : String} {value : Value}
    (placed : mapper.Placed (.ofEntity entity) type)
    (found : mapper.model? entity.kind = some model)
    (declared : property ∈ model.fields.map Field.name)
    (fits : ∀ field ∈ model.fields, field.name = property → mapper.Placed value field.type) :
    mapper.Placed (.ofEntity (entity.set property value)) type := by
  cases placed with
  | single simple => cases simple
  | entity compatible registered known each =>
    obtain rfl := Option.some.inj (found.symm.trans registered)
    have kind := entity.set_kind property value
    refine .entity (fun name same => kind ▸ compatible name same) (kind ▸ found)
      (fun entry member => ?_) fun entry member => ?_
    · rcases Entity.mem_set member with ⟨rfl, -⟩ | before
      · exact declared
      · exact known entry before
    · rcases Entity.mem_set member with ⟨rfl, -⟩ | before
      · exact fits
      · exact each entry before

end Placed

/-- No field of a model lets anything in. -/
def Typed (mapper : Mapper) : Prop :=
  ∀ model ∈ mapper.models, ∀ field ∈ model.fields, field.type.hasAny = false

/-- Whether a field lets anything in is decided by looking at each. -/
instance (mapper : Mapper) : Decidable mapper.Typed :=
  inferInstanceAs (Decidable (∀ model ∈ mapper.models, ∀ field ∈ model.fields,
    field.type.hasAny = false))

end Mapper

end EntityMapping
