import EntityMapping.Proofs.Value.Induction
/-!
# Following a path

A path of names leads from a value to values inside it. A name picks a property of an entity or
an entry of a map, and lists on the way are passed through item by item, at whatever depth; a
property that has no value counts as null. What a path reaches in a document is said alike, with
embedded documents in the place of entities and maps.
-/

namespace EntityMapping

/-- The parts that a path reaches, where lists are spread before a segment picks its part. -/
def Path.follow {α : Type} (spread : α → List α) (part : String → α → Option α) :
    List String → α → List α
  | [], whole => [whole]
  | segment :: rest, whole =>
    (spread whole).flatMap fun one => (part segment one).toList.flatMap (follow spread part rest)

namespace Value

mutual

/-- The values that a value stands for on a path: the items of a list, those of lists in it
spread in turn, and any other value itself. -/
def spread : Value → List Value
  | .array items => spreadItems items
  | single => [single]

/-- The values that the items of a list stand for. -/
def spreadItems : List Value → List Value
  | [] => []
  | item :: rest => spread item ++ spreadItems rest

end

/-- The part of a value that a segment picks: a property of an entity, null where it has no
value, or an entry of a map. -/
def part (segment : String) : Value → Option Value
  | .entity _ properties => some ((Keyed.get? segment properties).getD .null)
  | .map entries => Keyed.get? segment entries
  | _ => none

/-- The values that a path reaches. -/
def follow : List String → Value → List Value := Path.follow spread part

/-- A list stands for what its items stand for. -/
theorem spread_array (items : List Value) : (Value.array items).spread = items.flatMap spread := by
  rw [spread]
  induction items with
  | nil => rw [spreadItems, List.flatMap_nil]
  | cons item rest ih => rw [spreadItems, ih, List.flatMap_cons]

/-- What is no list stands for itself. -/
theorem spread_other {value : Value} (other : ∀ items, value ≠ .array items) :
    value.spread = [value] := by
  cases value with
  | array items => exact absurd rfl (other items)
  | _ => rfl

/-- No path leads into a value without content. -/
theorem follow_nothing {value : Value}
    (nothing : value.isNull = true ∨ value.isEmptyCollection = true) (segment : String)
    (rest : List String) : value.follow (segment :: rest) = [] := by
  cases value with
  | null => rfl
  | array items =>
    obtain rfl : items = [] := by simpa [isNull, isEmptyCollection] using nothing
    rfl
  | map entries =>
    obtain rfl : entries = [] := by simpa [isNull, isEmptyCollection] using nothing
    rfl
  | _ => simp [isNull, isEmptyCollection] at nothing

/-- No map in a value, at whatever depth, names an entry twice. -/
inductive MapsApart : Value → Prop where
  /-- A value without parts. -/
  | single {value : Value} (simple : value.isSingle = true) : MapsApart value
  /-- A list of such values. -/
  | array {items : List Value} (each : ∀ item ∈ items, MapsApart item) : MapsApart (.array items)
  /-- A map of such values under names of their own. -/
  | map {entries : List (String × Value)} (apart : Keyed.Distinct entries)
    (each : ∀ entry ∈ entries, MapsApart entry.2) : MapsApart (.map entries)
  /-- An entity with such properties. -/
  | entity {kind : String} {properties : List (String × Value)}
    (each : ∀ entry ∈ properties, MapsApart entry.2) : MapsApart (.entity kind properties)

namespace MapsApart

/-- What a value stands for is like the value. -/
theorem spread {value : Value} (apart : value.MapsApart) : ∀ one ∈ value.spread, one.MapsApart := by
  induction apart with
  | @single single simple =>
    have other : ∀ items, single ≠ .array items := by
      rintro items rfl
      cases simple
    rw [spread_other other, List.forall_mem_singleton]
    exact .single simple
  | array each ih =>
    intro one member
    rw [spread_array] at member
    obtain ⟨item, known, inside⟩ := List.mem_flatMap.mp member
    exact ih item known one inside
  | map apart each _ =>
    rw [spread_other (by simp), List.forall_mem_singleton]
    exact .map apart each
  | entity each _ =>
    rw [spread_other (by simp), List.forall_mem_singleton]
    exact .entity each

/-- A map names its entries apart. -/
theorem distinct {entries : List (String × Value)} (apart : (Value.map entries).MapsApart) :
    Keyed.Distinct entries := by
  cases apart with
  | single simple => cases simple
  | map distinct => exact distinct

/-- A part of a value is like the value. -/
theorem part {value found : Value} (apart : value.MapsApart) {segment : String}
    (picked : value.part segment = some found) : found.MapsApart := by
  cases apart with
  | single simple => cases value <;> first | cases simple; done | cases picked
  | array each => cases picked
  | map apart each => exact each _ (Keyed.mem_of_get? picked)
  | entity each =>
    rename_i kind properties
    obtain rfl := Option.some.inj picked
    cases located : Keyed.get? segment properties with
    | none => exact .single rfl
    | some value => exact each _ (Keyed.mem_of_get? located)

end MapsApart

end Value

namespace Bson

mutual

/-- The stored values that a stored value stands for on a path. -/
def spread : Bson → List Bson
  | .array items => spreadItems items
  | single => [single]

/-- The stored values that the items of an array stand for. -/
def spreadItems : List Bson → List Bson
  | [] => []
  | item :: rest => spread item ++ spreadItems rest

end

/-- The part of a stored value that a segment picks: an entry of a document. -/
def part (segment : String) : Bson → Option Bson
  | .document entries => Keyed.get? segment entries
  | _ => none

/-- The stored values that a path reaches. -/
def follow : List String → Bson → List Bson := Path.follow spread part

/-- What is no array stands for itself. -/
theorem spread_other {stored : Bson} (other : ∀ items, stored ≠ .array items) :
    stored.spread = [stored] := by
  cases stored with
  | array items => exact absurd rfl (other items)
  | _ => rfl

/-- An array stands for what its items stand for. -/
theorem spread_array (items : List Bson) : (Bson.array items).spread = items.flatMap spread := by
  rw [spread]
  induction items with
  | nil => rw [spreadItems, List.flatMap_nil]
  | cons item rest ih => rw [spreadItems, ih, List.flatMap_cons]

end Bson

end EntityMapping
