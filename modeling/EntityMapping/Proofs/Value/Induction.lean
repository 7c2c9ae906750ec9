import EntityMapping.Value.Basic
/-!
# Induction over values

A value is a single one, or it is made of values: the items of a list, the entries
of a map, the properties of an entity. What holds of a value as soon as it holds of
its parts holds of every value. A stored value is taken for what it is part by part.
-/

namespace EntityMapping.Value

/-- Whether a value has no parts. -/
def isSingle : Value → Bool
  | array _ | map _ | entity _ _ => false
  | _ => true

/-- The value of an entry is smaller than the entries. -/
theorem sizeOf_entry {entries : List (String × Value)} {entry : String × Value}
    (member : entry ∈ entries) : sizeOf entry.2 < sizeOf entries := by
  have whole := List.sizeOf_lt_of_mem member
  obtain ⟨name, value⟩ := entry
  simp only [Prod.mk.sizeOf_spec] at whole
  dsimp only
  omega

/-- What parts pass on to the whole holds of every value. -/
@[elab_as_elim] theorem parts_induction {motive : Value → Prop}
    (single : ∀ value, value.isSingle = true → motive value)
    (array : ∀ items, (∀ item ∈ items, motive item) → motive (.array items))
    (map : ∀ entries : List (String × Value), (∀ entry ∈ entries, motive entry.2) →
      motive (.map entries))
    (entity : ∀ kind (properties : List (String × Value)),
      (∀ entry ∈ properties, motive entry.2) → motive (.entity kind properties)) :
    ∀ value, motive value
  | .array items => array items fun item member =>
    have : sizeOf item < sizeOf items := List.sizeOf_lt_of_mem member
    parts_induction single array map entity item
  | .map entries => map entries fun entry member =>
    have : sizeOf entry.2 < sizeOf entries := sizeOf_entry member
    parts_induction single array map entity entry.2
  | .entity kind properties => entity kind properties fun entry member =>
    have : sizeOf entry.2 < sizeOf properties := sizeOf_entry member
    parts_induction single array map entity entry.2
  | .null | .bool _ | .int32 _ | .int64 _ | .double _ | .string _ | .objectId _ | .dateTime _
  | .other _ => single _ rfl
termination_by value => sizeOf value
decreasing_by all_goals simp +arith; omega

/-- The items of an array are taken one by one. -/
theorem ofItems_eq (items : List Bson) : ofItems items = items.map ofBson := by
  induction items with
  | nil => rw [ofItems, List.map_nil]
  | cons item rest ih => rw [ofItems, ih, List.map_cons]

/-- The entries of a document are taken one by one, under their names. -/
theorem ofEntries_eq (entries : List (String × Bson)) :
    ofEntries entries = entries.map fun entry => (entry.1, ofBson entry.2) := by
  induction entries with
  | nil => rw [ofEntries, List.map_nil]
  | cons entry rest ih => rw [ofEntries, ih, List.map_cons]

end EntityMapping.Value
