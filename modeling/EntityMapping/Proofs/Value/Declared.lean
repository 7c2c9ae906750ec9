import EntityMapping.Proofs.Value.Alike
import EntityMapping.Proofs.Value.Conversion
/-!
# Values of a declared type

A value is of a declared type when it is null, when anything is allowed, or when it has the
declared form at every depth. Conversion ends in values of the declared type, and it changes
nothing in those: they are its fixed points. What it does to lists and maps keeps their length,
and the names of a map in their order.
-/

namespace EntityMapping

/-- A value is of a declared type. -/
inductive Value.IsOf : Value → FieldType → Prop where
  /-- Null is of every type. -/
  | null (type : FieldType) : IsOf .null type
  /-- Everything is anything. -/
  | any (value : Value) : IsOf value .any
  /-- A truth value. -/
  | bool (value : Bool) : IsOf (.bool value) (.scalar .bool)
  /-- A 32-bit integer. -/
  | int32 (value : Int32) : IsOf (.int32 value) (.scalar .int32)
  /-- A 64-bit integer. -/
  | int64 (value : Int64) : IsOf (.int64 value) (.scalar .int64)
  /-- A double. -/
  | double (value : Binary64) : IsOf (.double value) (.scalar .double)
  /-- A text. -/
  | string (value : String) : IsOf (.string value) (.scalar .string)
  /-- An object identifier. -/
  | objectId (value : ObjectId) : IsOf (.objectId value) (.scalar .objectId)
  /-- A time. -/
  | dateTime (millis : Int64) : IsOf (.dateTime millis) (.scalar .dateTime)
  /-- An entity of exactly the kind that is named. -/
  | entity (kind : String) (properties : List (String × Value)) :
    IsOf (.entity kind properties) (.entity kind)
  /-- A list of items that are of the element type. -/
  | array {items : List Value} {element : FieldType} (each : ∀ item ∈ items, IsOf item element) :
    IsOf (.array items) (.list element)
  /-- A map of values that are of the element type. -/
  | map {entries : List (String × Value)} {element : FieldType}
    (each : ∀ entry ∈ entries, IsOf entry.2 element) : IsOf (.map entries) (.map element)

/-- What conversion keeps of a value at every depth: which parts it has, in which order and
under which names. Only what is no list may become a list of one. -/
inductive Value.Reshaped : Value → Value → Prop where
  /-- A value without parts is one afterwards. -/
  | single {value result : Value} (before : value.isSingle = true)
    (after : result.isSingle = true) : Reshaped value result
  /-- An entity is the same afterwards. -/
  | entity (kind : String) (properties : List (String × Value)) :
    Reshaped (.entity kind properties) (.entity kind properties)
  /-- A list has as many items as before. -/
  | array {items results : List Value} (each : List.Forall₂ Reshaped items results) :
    Reshaped (.array items) (.array results)
  /-- A map has the names it had before, in the same order. -/
  | map {entries results : List (String × Value)} (names : Keyed.keys results = Keyed.keys entries)
    (each : List.Forall₂ Reshaped (entries.map Prod.snd) (results.map Prod.snd)) :
    Reshaped (.map entries) (.map results)
  /-- A value becomes a list of one. -/
  | alone {value item : Value} (unlisted : ∀ items, value ≠ .array items)
    (shaped : Reshaped value item) : Reshaped value (.array [item])

variable {type : FieldType} {value converted : Value}

/-- What is left as it is keeps its shape. -/
theorem Value.Reshaped.refl (value : Value) : value.Reshaped value := by
  induction value using parts_induction with
  | single value simple => exact .single simple simple
  | array items ih => exact .array (List.forall₂_same.mpr ih)
  | map entries ih => exact .map rfl (List.forall₂_same.mpr (List.forall_mem_map.mpr ih))
  | entity kind properties _ => exact .entity kind properties

/-- Conversion keeps the shape of a value. -/
theorem reshaped_convert (done : convert type value = .ok converted) :
    value.Reshaped converted := by
  refine convert_induction ?null ?any ?same ?scalar ?entity ?items ?single ?entries done
  case null => exact fun type => .refl _
  case any => exact .refl
  case same => exact fun type value shows => .refl value
  case scalar =>
    intro type value converted made
    obtain ⟨before, after⟩ := isSingle_toScalar made
    exact .single before after
  case entity => exact .entity
  case items => exact fun element items results each => .array each
  case single => exact fun element value item unlisted shaped => .alone unlisted shaped
  case entries =>
    intro element entries results each
    refine .map (Value.keys_of_forall₂ each).symm ?_
    rw [List.forall₂_map_left_iff, List.forall₂_map_right_iff]
    exact each.imp fun _ _ made => made.2

/-- A value that shows a scalar type is of the type. -/
theorem Value.IsOf.of_runtimeType {type : ScalarType}
    (shows : value.runtimeType = some (.scalar type)) : value.IsOf (.scalar type) := by
  cases value <;> cases shows <;> constructor

/-- What conversion gives is of the declared type. -/
theorem isOf_convert (done : convert type value = .ok converted) : converted.IsOf type := by
  refine convert_induction ?null ?any ?same ?scalar ?entity ?items ?single ?entries done
  case null => exact .null
  case any => exact .any
  case same => exact fun type value shows => .of_runtimeType shows
  case scalar => exact fun type value converted made => .of_runtimeType (runtimeType_toScalar made)
  case entity => exact .entity
  case items =>
    intro element items results each
    refine .array fun result member => ?_
    obtain ⟨item, made⟩ := exists_of_mem_left each.flip result member
    exact made
  case single =>
    intro element value item alone made
    exact .array (List.forall_mem_singleton.mpr made)
  case entries =>
    intro element entries results each
    refine .map fun result member => ?_
    obtain ⟨entry, -, made⟩ := exists_of_mem_left each.flip result member
    exact made

/-- A value of the declared type is not converted. -/
theorem convert_of_isOf (isOf : value.IsOf type) : convert type value = .ok value := by
  induction isOf with
  | null type => exact convert_null type
  | any value => exact convert_any value
  | entity kind properties =>
    have filled : Value.entity kind properties ≠ .null := nofun
    exact (convert_entity filled).mpr ⟨rfl, properties, rfl⟩
  | array each ih =>
    rw [convert_list_array_iff, List.forall₂_same]
    exact ih
  | map each ih =>
    rw [convert_map_map_iff, List.forall₂_same]
    exact fun entry member => ⟨rfl, ih entry member⟩
  | _ => exact convert_scalar_same rfl

/-- Conversion gives values of the declared type, keeps the shape of what it is given, and has
nothing left to do with what it gave; what it does nothing to is exactly what was of the declared
type before. -/
theorem convert_to_declared (type : FieldType) (value : Value) :
    (∀ converted, convert type value = .ok converted →
      converted.IsOf type ∧ value.Reshaped converted ∧ convert type converted = .ok converted) ∧
    (convert type value = .ok value ↔ value.IsOf type) := by
  refine ⟨fun converted done => ?_, isOf_convert, convert_of_isOf⟩
  have isOf := isOf_convert done
  exact ⟨isOf, reshaped_convert done, convert_of_isOf isOf⟩

/-- A map of numbers and texts as a map of lists: the names stay where they were, single values
become lists, and null stays null. -/
theorem convert_to_declared_counts :
    convert (.map (.list (.scalar .int64)))
        (.map [("b", .int32 1), ("a", .array [.string " 2 ", .null])]) =
      .ok (.map [("b", .array [.int64 1]), ("a", .array [.int64 2, .null])]) ∧
    Value.IsOf (.map [("b", .array [.int64 1]), ("a", .array [.int64 2, .null])])
      (.map (.list (.scalar .int64))) ∧
    Value.Reshaped (.map [("b", .int32 1), ("a", .array [.string " 2 ", .null])])
      (.map [("b", .array [.int64 1]), ("a", .array [.int64 2, .null])]) ∧
    convert (.map (.list (.scalar .int64)))
        (.map [("b", .array [.int64 1]), ("a", .array [.int64 2, .null])]) =
      .ok (.map [("b", .array [.int64 1]), ("a", .array [.int64 2, .null])]) := by
  have done : convert (.map (.list (.scalar .int64)))
      (.map [("b", .int32 1), ("a", .array [.string " 2 ", .null])]) =
      .ok (.map [("b", .array [.int64 1]), ("a", .array [.int64 2, .null])]) := by rfl
  exact ⟨done, (convert_to_declared _ _).1 _ done⟩

end EntityMapping
