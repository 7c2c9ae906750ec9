import EntityMapping.Conversion
import EntityMapping.Proofs.Mapper.Sound
import EntityMapping.Proofs.Value.Induction
/-!
# Values of declared types

A value conforms to a declared type when it has exactly that form: the form of the
scalar, a list or map whose parts are null or conform in turn, an entity of some
registered kind. Entities are sound at every depth, also where anything is allowed:
each property is that of a field and conforms to the type of a field of its name.
Conversion to a declared type gives values that conform to it.
-/

namespace EntityMapping.Mapper

mutual

/-- Whether a value conforms to a declared type. -/
def Conforms (mapper : Mapper) : Value → FieldType → Prop
  | .array items, type =>
    match type with
    | .list element => mapper.ItemsConform items element
    | .any => mapper.ItemsConform items .any
    | _ => False
  | .map entries, type =>
    match type with
    | .map element => mapper.EntriesConform entries element
    | .any => mapper.EntriesConform entries .any
    | _ => False
  | .entity kind properties, type =>
    (type = .any ∨ ∃ name, type = .entity name) ∧
      ∃ model, mapper.model? kind = some model ∧ mapper.PropertiesConform model properties
  | single, type => type = .any ∨ single.runtimeType = some type

/-- Whether every item is null or conforms to a type. -/
def ItemsConform (mapper : Mapper) : List Value → FieldType → Prop
  | [], _ => True
  | item :: rest, type =>
    (item = .null ∨ mapper.Conforms item type) ∧ mapper.ItemsConform rest type

/-- Whether every entry is null or conforms to a type. -/
def EntriesConform (mapper : Mapper) : List (String × Value) → FieldType → Prop
  | [], _ => True
  | (_, entry) :: rest, type =>
    (entry = .null ∨ mapper.Conforms entry type) ∧ mapper.EntriesConform rest type

/-- Whether no property is null and every one conforms to a field of its name. -/
def PropertiesConform (mapper : Mapper) (model : EntityModel) : List (String × Value) → Prop
  | [] => True
  | (name, value) :: rest =>
    (value ≠ .null ∧
      ∃ field ∈ model.fields, field.name = name ∧ mapper.Conforms value field.type) ∧
      mapper.PropertiesConform model rest

end

/-- A sound entity: its kind is registered, no property is null, and every property is that
of a field of its model and conforms to the type of a field of that name. -/
def SoundEntity (mapper : Mapper) (entity : Entity) : Prop :=
  ∃ model, mapper.model? entity.kind = some model ∧ ∀ entry ∈ entity.properties,
    entry.2 ≠ .null ∧
      ∃ field ∈ model.fields, field.name = entry.1 ∧ mapper.Conforms entry.2 field.type

variable {mapper : Mapper} {type : FieldType}

/-- Every item is looked at. -/
theorem itemsConform_iff {items : List Value} : mapper.ItemsConform items type ↔
    ∀ item ∈ items, item = .null ∨ mapper.Conforms item type := by
  induction items with
  | nil => simp [ItemsConform]
  | cons item rest ih => simp [ItemsConform, ih]

/-- Every entry is looked at. -/
theorem entriesConform_iff {entries : List (String × Value)} :
    mapper.EntriesConform entries type ↔
      ∀ entry ∈ entries, entry.2 = .null ∨ mapper.Conforms entry.2 type := by
  induction entries with
  | nil => simp [EntriesConform]
  | cons entry rest ih =>
    obtain ⟨name, value⟩ := entry
    simp only [EntriesConform, ih, List.forall_mem_cons]

/-- Every property is looked at. -/
theorem propertiesConform_iff {model : EntityModel} {properties : List (String × Value)} :
    mapper.PropertiesConform model properties ↔ ∀ entry ∈ properties,
      entry.2 ≠ .null ∧
        ∃ field ∈ model.fields, field.name = entry.1 ∧ mapper.Conforms entry.2 field.type := by
  induction properties with
  | nil => simp [PropertiesConform]
  | cons entry rest ih =>
    obtain ⟨name, value⟩ := entry
    simp only [PropertiesConform, ih, List.forall_mem_cons]

/-- A list conforms to a list type when its items do. -/
theorem conforms_list {items : List Value} {element : FieldType} :
    mapper.Conforms (.array items) (.list element) ↔
      ∀ item ∈ items, item = .null ∨ mapper.Conforms item element := by
  rw [Conforms]
  exact itemsConform_iff

/-- A list is anything when its items are. -/
theorem conforms_any_array {items : List Value} : mapper.Conforms (.array items) .any ↔
    ∀ item ∈ items, item = .null ∨ mapper.Conforms item .any := by
  rw [Conforms]
  exact itemsConform_iff

/-- A map conforms to a map type when its entries do. -/
theorem conforms_map {entries : List (String × Value)} {element : FieldType} :
    mapper.Conforms (.map entries) (.map element) ↔
      ∀ entry ∈ entries, entry.2 = .null ∨ mapper.Conforms entry.2 element := by
  rw [Conforms]
  exact entriesConform_iff

/-- A map is anything when its entries are. -/
theorem conforms_any_map {entries : List (String × Value)} :
    mapper.Conforms (.map entries) .any ↔
      ∀ entry ∈ entries, entry.2 = .null ∨ mapper.Conforms entry.2 .any := by
  rw [Conforms]
  exact entriesConform_iff

/-- An entity conforms to anything and to any entity type when it is sound. -/
theorem conforms_entity {entity : Entity} : mapper.Conforms (Value.ofEntity entity) type ↔
    (type = .any ∨ ∃ name, type = .entity name) ∧ mapper.SoundEntity entity := by
  rw [Value.ofEntity, Conforms, SoundEntity]
  simp only [propertiesConform_iff]

/-- A value without parts conforms to the type it shows and to anything. -/
theorem conforms_single {single : Value} (simple : single.isSingle = true) :
    mapper.Conforms single type ↔ type = .any ∨ single.runtimeType = some type := by
  cases single with
  | array | map | entity => cases simple
  | _ => simp only [Conforms]

mutual

/-- A stored value read for what it is holds no entity. -/
theorem conforms_ofBson (mapper : Mapper) : ∀ stored : Bson,
    mapper.Conforms (Value.ofBson stored) .any
  | .array items => by
    rw [Value.ofBson, conforms_any_array]
    exact fun item member => .inr (conforms_ofItems mapper items item member)
  | .document entries => by
    rw [Value.ofBson, conforms_any_map]
    exact fun entry member => .inr (conforms_ofEntries mapper entries entry member)
  | .null | .undefined | .boolean _ | .int32 _ | .int64 _ | .double _ | .string _ | .objectId _
  | .dateTime _ | .regex _ _ | .code _ | .scopedCode _ _ | .binary _ _ | .timestamp _ _
  | .decimal _ | .symbol _ | .minKey | .maxKey | .reference _ _ => by
    rw [Value.ofBson, conforms_single rfl]
    exact .inl rfl

/-- The items of a stored array hold no entity. -/
theorem conforms_ofItems (mapper : Mapper) : ∀ stored : List Bson,
    ∀ item ∈ Value.ofItems stored, mapper.Conforms item .any
  | [], item, member => by simp [Value.ofItems] at member
  | first :: rest, item, member => by
    rw [Value.ofItems] at member
    rcases List.mem_cons.mp member with here | later
    · rw [here]
      exact conforms_ofBson mapper first
    · exact conforms_ofItems mapper rest item later

/-- The entries of a stored document hold no entity. -/
theorem conforms_ofEntries (mapper : Mapper) : ∀ stored : List (String × Bson),
    ∀ entry ∈ Value.ofEntries stored, mapper.Conforms entry.2 .any
  | [], entry, member => by simp [Value.ofEntries] at member
  | (key, first) :: rest, entry, member => by
    rw [Value.ofEntries] at member
    rcases List.mem_cons.mp member with here | later
    · rw [here]
      exact conforms_ofBson mapper first
    · exact conforms_ofEntries mapper rest entry later

end

/-- A value that needs no conversion conforms already, or is null. -/
theorem settled_conforms {value : Value} (sound : mapper.Conforms value .any)
    (settled : Conversion.settled value type = true) :
    value = .null ∨ mapper.Conforms value type := by
  unfold Conversion.settled at settled
  rw [Bool.or_eq_true, Bool.or_eq_true] at settled
  rcases settled with (isNull | isAny) | shown
  · left
    cases value <;> simp [Value.isNull] at isNull ⊢
  · right
    rw [of_decide_eq_true isAny]
    exact sound
  · right
    cases value with
    | array items => cases type <;> simp [Value.runtimeType] at shown
    | map entries => cases type <;> simp [Value.runtimeType] at shown
    | entity kind properties =>
      have isEntity : some (FieldType.entity kind) = some type := of_decide_eq_true shown
      rw [← Option.some.inj isEntity]
      exact conforms_entity.mpr ⟨.inr ⟨kind, rfl⟩,
        (@conforms_entity mapper .any ⟨kind, properties⟩).mp sound |>.2⟩
    | _ =>
      rw [conforms_single rfl]
      exact .inr (by simpa using shown)

/-- A value made into a scalar is that scalar. -/
theorem toScalar_conforms {target : ScalarType} {value converted : Value}
    (done : Conversion.toScalar target value = some converted) :
    mapper.Conforms converted (.scalar target) := by
  cases target <;>
    · obtain ⟨found, -, rfl⟩ := Option.map_eq_some_iff.mp done
      rw [conforms_single rfl]
      exact .inr rfl

/-- A converted item comes from an item. -/
theorem mem_convertItems {change : Value → Except MappingError Value} {items results : List Value}
    (done : Conversion.convertItems change items = .ok results) :
    ∀ result ∈ results, ∃ item ∈ items, change item = .ok result := by
  induction items generalizing results with
  | nil =>
    cases done
    simp
  | cons item rest ih =>
    obtain ⟨first, here, done⟩ := ok_of_bind done
    obtain ⟨others, later, done⟩ := ok_of_bind done
    cases done
    intro result member
    rcases List.mem_cons.mp member with rfl | known
    · exact ⟨item, by simp, here⟩
    · obtain ⟨source, among, same⟩ := ih later result known
      exact ⟨source, by simp [among], same⟩

/-- A converted entry comes from an entry. -/
theorem mem_convertEntries {change : Value → Except MappingError Value}
    {entries results : List (String × Value)}
    (done : Conversion.convertEntries change entries = .ok results) :
    ∀ result ∈ results, ∃ entry ∈ entries, change entry.2 = .ok result.2 := by
  induction entries generalizing results with
  | nil =>
    cases done
    simp
  | cons entry rest ih =>
    obtain ⟨key, value⟩ := entry
    obtain ⟨first, here, done⟩ := ok_of_bind done
    obtain ⟨others, later, done⟩ := ok_of_bind done
    cases done
    intro result member
    rcases List.mem_cons.mp member with rfl | known
    · exact ⟨(key, value), by simp, here⟩
    · obtain ⟨source, among, same⟩ := ih later result known
      exact ⟨source, by simp [among], same⟩

/-- A converted value conforms to the type it is converted to, or is null. -/
theorem convert_conforms {target : FieldType} {raw converted : Value}
    (sound : mapper.Conforms raw .any) (done : convert target raw = .ok converted) :
    converted = .null ∨ mapper.Conforms converted target := by
  -- A null or fitting part of a list or map conforms to anything.
  have part : ∀ value, value = Value.null ∨ mapper.Conforms value .any →
      mapper.Conforms value .any := by
    rintro value (rfl | known)
    · exact (conforms_single rfl).mpr (.inl rfl)
    · exact known
  induction target generalizing raw converted with
  | scalar type =>
    unfold convert at done
    split at done
    · rename_i settled
      exact Except.ok.inj done ▸ settled_conforms sound settled
    · dsimp only at done
      cases made : Conversion.toScalar type raw with
      | some found =>
        rw [made] at done
        exact .inr (Except.ok.inj done ▸ toScalar_conforms made)
      | none => simp [made] at done
  | entity name | any =>
    unfold convert at done
    split at done
    · rename_i settled
      exact Except.ok.inj done ▸ settled_conforms sound settled
    · cases done
  | list element ih =>
    unfold convert at done
    split at done
    · rename_i settled
      exact Except.ok.inj done ▸ settled_conforms sound settled
    · right
      cases raw with
      | array items =>
        obtain ⟨results, walked, rfl⟩ := ok_of_map done
        rw [conforms_list]
        intro result member
        obtain ⟨item, among, made⟩ := mem_convertItems walked result member
        exact ih (part item (conforms_any_array.mp sound item among)) made
      | _ =>
        obtain ⟨item, made, rfl⟩ := ok_of_map done
        rw [conforms_list]
        intro result member
        rw [List.mem_singleton.mp member]
        exact ih sound made
  | map element ih =>
    unfold convert at done
    split at done
    · rename_i settled
      exact Except.ok.inj done ▸ settled_conforms sound settled
    · right
      cases raw with
      | map entries =>
        obtain ⟨results, walked, rfl⟩ := ok_of_map done
        rw [conforms_map]
        intro result member
        obtain ⟨entry, among, made⟩ := mem_convertEntries walked result member
        exact ih (part entry.2 (conforms_any_map.mp sound entry among)) made
      | _ => cases done

end EntityMapping.Mapper
