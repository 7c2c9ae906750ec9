import EntityMapping.Conversion
import EntityMapping.Proofs.Steps
import EntityMapping.Proofs.Value.Agreement
/-!
# Converting form by form

One equation for each declared type and form of value says what conversion does, so that nothing
else looks into it. Conversion neither makes entities nor loses them: what it gives holds an entity
exactly when it was given one.
-/

namespace EntityMapping

namespace Value

mutual

/-- No entity is in what a stored value stands for by itself. -/
theorem holdsEntity_ofBson (stored : Bson) : (ofBson stored).holdsEntity = false := by
  cases stored with
  | array items => rw [ofBson, holdsEntity, itemsHoldEntity_ofItems items]
  | document entries => rw [ofBson, holdsEntity, entriesHoldEntity_ofEntries entries]
  | _ => simp [ofBson, holdsEntity]

/-- No entity is in the items of an array. -/
theorem itemsHoldEntity_ofItems (items : List Bson) : itemsHoldEntity (ofItems items) = false := by
  cases items with
  | nil => rw [ofItems, itemsHoldEntity]
  | cons item rest =>
    rw [ofItems, itemsHoldEntity, holdsEntity_ofBson item, itemsHoldEntity_ofItems rest,
      Bool.or_false]

/-- No entity is in the entries of a document. -/
theorem entriesHoldEntity_ofEntries (entries : List (String × Bson)) :
    entriesHoldEntity (ofEntries entries) = false := by
  cases entries with
  | nil => rw [ofEntries, entriesHoldEntity]
  | cons entry rest =>
    obtain ⟨key, value⟩ := entry
    rw [ofEntries, entriesHoldEntity, holdsEntity_ofBson value, entriesHoldEntity_ofEntries rest,
      Bool.or_false]

end

end Value

namespace Conversion

/-- The items of a list are converted one by one. -/
theorem convertItems_eq (change : Value → Except MappingError Value) (items : List Value) :
    convertItems change items = items.mapM change := by
  induction items with
  | nil => rfl
  | cons item rest ih =>
    rw [convertItems, List.mapM_cons, ih]
    rfl

/-- The entries of a map are converted one by one, and keep their names. -/
theorem convertEntries_eq (change : Value → Except MappingError Value)
    (entries : List (String × Value)) :
    convertEntries change entries =
      entries.mapM fun entry => (change entry.2).map (entry.1, ·) := by
  induction entries with
  | nil => rfl
  | cons entry rest ih =>
    rw [convertEntries, List.mapM_cons, ih]
    cases change entry.2 <;> rfl

end Conversion

open Conversion

variable {type element : FieldType} {value converted : Value}

/-- Null is null by every type. -/
theorem convert_null (type : FieldType) : convert type .null = .ok .null := by
  rw [convert.eq_def]
  simp [settled, Value.isNull]

/-- Where anything may stand, nothing is converted. -/
theorem convert_any (value : Value) : convert .any value = .ok value := by
  simp [convert.eq_def, settled]

/-- A value of the scalar type is not converted. -/
theorem convert_scalar_same {type : ScalarType} (same : value.runtimeType = some (.scalar type)) :
    convert (.scalar type) value = .ok value := by
  cases value <;> simp_all [convert.eq_def, settled, Value.runtimeType]

/-- What a scalar is made into, where it has another form. -/
theorem convert_scalar_other {type : ScalarType} (filled : value ≠ .null)
    (other : value.runtimeType ≠ some (.scalar type)) :
    convert (.scalar type) value =
      match toScalar type value with
      | some converted => .ok converted
      | none => .error (failed (.scalar type) value) := by
  have unsettled : settled value (.scalar type) = false := by
    cases value with
    | null => exact absurd rfl filled
    | _ => simp_all [settled, Value.isNull, Value.runtimeType]
  rw [convert.eq_def, unsettled]
  rfl

/-- A value of one scalar type becomes a scalar of another exactly where it is made into one. -/
theorem convert_between_iff {source target : ScalarType}
    (shows : value.runtimeType = some (.scalar source)) (differ : source ≠ target) :
    convert (.scalar target) value = .ok converted ↔ toScalar target value = some converted := by
  have filled : value ≠ .null := by
    rintro rfl
    cases shows
  rw [convert_scalar_other filled (by simp [shows, differ])]
  cases toScalar target value <;> simp

/-- A result that is there under a condition, in its form as a value. -/
theorem map_some_iff {α : Type} {made : Option α} {within : Prop} {shows : α → Prop}
    (each : ∀ result, made = some result ↔ within ∧ shows result) {form : α → Value} :
    made.map form = some converted ↔
      within ∧ ∃ result, converted = form result ∧ shows result := by
  simp only [Option.map_eq_some_iff, each]
  constructor
  · rintro ⟨result, ⟨within, shown⟩, rfl⟩
    exact ⟨within, result, rfl, shown⟩
  · rintro ⟨within, result, rfl, shown⟩
    exact ⟨result, ⟨within, shown⟩, rfl⟩

/-- What is made into a scalar has the form of the scalar. -/
theorem runtimeType_toScalar {type : ScalarType} (done : toScalar type value = some converted) :
    converted.runtimeType = some (.scalar type) := by
  cases type <;>
    · obtain ⟨found, -, rfl⟩ := Option.map_eq_some_iff.mp done
      rfl

/-- A list is converted item by item. -/
theorem convert_list_array (element : FieldType) (items : List Value) :
    convert (.list element) (.array items) = (items.mapM (convert element)).map .array := by
  rw [convert.eq_def, ← convertItems_eq]
  simp [settled, Value.isNull]

/-- A list is converted to the list of its converted items. -/
theorem convert_list_array_iff {items results : List Value} :
    convert (.list element) (.array items) = .ok (.array results) ↔
      List.Forall₂ (fun item result => convert element item = .ok result) items results := by
  rw [convert_list_array, ← mapM_eq_ok]
  cases items.mapM (convert element) <;> simp [Except.map]

/-- A value becomes a list of one. -/
theorem convert_list_single (filled : value ≠ .null) (single : ∀ items, value ≠ .array items) :
    convert (.list element) value =
      (convert element value).map fun item => .array [item] := by
  cases value with
  | null => exact absurd rfl filled
  | array items => exact absurd rfl (single items)
  | _ => rw [convert.eq_def]; simp [settled, Value.isNull, Value.runtimeType]

/-- A map is converted entry by entry. -/
theorem convert_map_map (element : FieldType) (entries : List (String × Value)) :
    convert (.map element) (.map entries) =
      (entries.mapM fun entry => (convert element entry.2).map (entry.1, ·)).map .map := by
  rw [convert.eq_def, ← convertEntries_eq]
  simp [settled, Value.isNull]

/-- A map is converted to the map of its converted values. -/
theorem convert_map_map_iff {entries results : List (String × Value)} :
    convert (.map element) (.map entries) = .ok (.map results) ↔
      List.Forall₂ (fun entry result => entry.1 = result.1 ∧
        convert element entry.2 = .ok result.2) entries results := by
  rw [convert_map_map, ← mapM_entries_eq_ok]
  cases entries.mapM fun entry => (convert element entry.2).map (entry.1, ·) <;>
    simp [Except.map]

/-- Nothing but a map becomes a map. -/
theorem convert_map_other (filled : value ≠ .null) (other : ∀ entries, value ≠ .map entries) :
    convert (.map element) value = .error (failed (.map element) value) := by
  cases value with
  | null => exact absurd rfl filled
  | map entries => exact absurd rfl (other entries)
  | _ => rw [convert.eq_def]; simp [settled, Value.isNull, Value.runtimeType]

/-- Nothing but an entity of the declared kind stands for one. -/
theorem convert_entity {name : String} (filled : value ≠ .null) :
    convert (.entity name) value = .ok converted ↔
      converted = value ∧ ∃ properties, value = .entity name properties := by
  cases value with
  | null => exact absurd rfl filled
  | entity kind properties =>
    rw [convert.eq_def]
    by_cases same : kind = name
    · simp [settled, Value.isNull, Value.runtimeType, same, eq_comm]
    · simp [settled, Value.isNull, Value.runtimeType, same]
  | _ => rw [convert.eq_def]; simp [settled, Value.isNull, Value.runtimeType]

/-- What holds of null, of what is left as it is and of what is made into a scalar, and passes
from parts to the whole, holds of every conversion. -/
@[elab_as_elim] theorem convert_induction {motive : FieldType → Value → Value → Prop}
    (null : ∀ type, motive type .null .null)
    (any : ∀ value, motive .any value value)
    (same : ∀ (type : ScalarType) (value : Value),
      value.runtimeType = some (.scalar type) → motive (.scalar type) value value)
    (scalar : ∀ (type : ScalarType) (value converted : Value),
      toScalar type value = some converted → motive (.scalar type) value converted)
    (entity : ∀ name (properties : List (String × Value)),
      motive (.entity name) (.entity name properties) (.entity name properties))
    (items : ∀ (element : FieldType) (items results : List Value),
      List.Forall₂ (motive element) items results →
      motive (.list element) (.array items) (.array results))
    (single : ∀ (element : FieldType) (value item : Value), (∀ items, value ≠ .array items) →
      motive element value item → motive (.list element) value (.array [item]))
    (entries : ∀ (element : FieldType) (entries results : List (String × Value)),
      List.Forall₂ (fun entry result => entry.1 = result.1 ∧ motive element entry.2 result.2)
        entries results → motive (.map element) (.map entries) (.map results))
    (done : convert type value = .ok converted) : motive type value converted := by
  induction type generalizing value converted with
  | any =>
    rw [convert_any] at done
    cases done
    exact any value
  | scalar type =>
    rcases eq_or_ne value .null with rfl | filled
    · rw [convert_null] at done
      cases done
      exact null _
    by_cases shows : value.runtimeType = some (.scalar type)
    · rw [convert_scalar_same shows] at done
      cases done
      exact same type value shows
    · rw [convert_scalar_other filled shows] at done
      split at done
      · rename_i made
        cases done
        exact scalar type value _ made
      · cases done
  | entity name =>
    rcases eq_or_ne value .null with rfl | filled
    · rw [convert_null] at done
      cases done
      exact null _
    obtain ⟨rfl, properties, rfl⟩ := (convert_entity filled).mp done
    exact entity name properties
  | list element ih =>
    rcases eq_or_ne value .null with rfl | filled
    · rw [convert_null] at done
      cases done
      exact null _
    by_cases listed : ∃ items, value = .array items
    · obtain ⟨parts, rfl⟩ := listed
      rw [convert_list_array] at done
      obtain ⟨results, walked, rfl⟩ := ok_of_map done
      exact items element parts results ((mapM_eq_ok.mp walked).imp fun _ _ made => ih made)
    · have alone : ∀ items, value ≠ .array items := fun items is => listed ⟨items, is⟩
      rw [convert_list_single filled alone] at done
      obtain ⟨item, made, rfl⟩ := ok_of_map done
      exact single element value item alone (ih made)
  | map element ih =>
    rcases eq_or_ne value .null with rfl | filled
    · rw [convert_null] at done
      cases done
      exact null _
    by_cases mapped : ∃ entries, value = .map entries
    · obtain ⟨parts, rfl⟩ := mapped
      rw [convert_map_map] at done
      obtain ⟨results, walked, rfl⟩ := ok_of_map done
      exact entries element parts results
        ((mapM_entries_eq_ok.mp walked).imp fun _ _ made => ⟨made.1, ih made.2⟩)
    · rw [convert_map_other filled fun entries is => mapped ⟨entries, is⟩] at done
      cases done

/-- Only a value without parts is made into a scalar. -/
theorem isSingle_toScalar {type : ScalarType} (done : toScalar type value = some converted) :
    value.isSingle = true ∧ converted.isSingle = true := by
  constructor
  · cases value with
    | array | map | entity => cases type <;> cases done
    | _ => rfl
  · cases type <;>
      · obtain ⟨found, -, rfl⟩ := Option.map_eq_some_iff.mp done
        rfl

/-- Conversion gives a value with entities for one with entities, and no others. -/
theorem holdsEntity_convert (done : convert type value = .ok converted) :
    converted.holdsEntity = value.holdsEntity := by
  refine convert_induction ?null ?any ?same ?scalar ?entity ?items ?single ?entries done
  case null | any | same | entity => intros; rfl
  case scalar =>
    intro type value converted made
    obtain ⟨before, after⟩ := isSingle_toScalar made
    rw [(Value.lossless_single after).1, (Value.lossless_single before).1]
  case items =>
    intro element items results each
    rw [Value.holdsEntity_array, Value.holdsEntity_array]
    induction each with
    | nil => rfl
    | cons first _ later => rw [List.any_cons, List.any_cons, first, later]
  case single =>
    intro element value item alone made
    rw [Value.holdsEntity_array, List.any_cons, List.any_nil, Bool.or_false, made]
  case entries =>
    intro element entries results each
    rw [Value.holdsEntity_map, Value.holdsEntity_map]
    induction each with
    | nil => rfl
    | cons first _ later => rw [List.any_cons, List.any_cons, first.2, later]

end EntityMapping
