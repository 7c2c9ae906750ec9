import EntityMapping.Proofs.Value.Alike
import EntityMapping.Proofs.Value.Induction
/-!
# Values that equal each other unless something was lost

An entity that is read as a plain map is lost: no map equals an entity. Whether a list
or a map equals another one of the same form is decided part by part, so it is known as
soon as it is known which parts lost something.
-/

namespace EntityMapping.Value

mutual

/-- Whether a value is an entity, or is made of lists and maps with an entity in them. -/
def holdsEntity : Value → Bool
  | .entity _ _ => true
  | .array items => itemsHoldEntity items
  | .map entries => entriesHoldEntity entries
  | _ => false

/-- Whether some item is or holds an entity. -/
def itemsHoldEntity : List Value → Bool
  | [] => false
  | item :: rest => holdsEntity item || itemsHoldEntity rest

/-- Whether the value of some entry is or holds an entity. -/
def entriesHoldEntity : List (String × Value) → Bool
  | [] => false
  | (_, value) :: rest => holdsEntity value || entriesHoldEntity rest

end

mutual

/-- Whether a value is made of lists, and of maps of which one has an entity in it. -/
def entityInMap : Value → Bool
  | .array items => itemsEntityInMap items
  | .map entries => entriesHoldEntity entries
  | _ => false

/-- Whether some item has an entity in a map. -/
def itemsEntityInMap : List Value → Bool
  | [] => false
  | item :: rest => entityInMap item || itemsEntityInMap rest

end

/-- No entity is in a value without parts. -/
theorem lossless_single {value : Value} (simple : value.isSingle = true) :
    value.holdsEntity = false ∧ value.entityInMap = false := by
  cases value with
  | array | map | entity => cases simple
  | _ => simp [holdsEntity, entityInMap]

/-- A list holds an entity when an item does. -/
theorem holdsEntity_array (items : List Value) :
    holdsEntity (.array items) = items.any holdsEntity := by
  rw [holdsEntity]
  induction items with
  | nil => rfl
  | cons item rest ih => rw [itemsHoldEntity, ih, List.any_cons]

/-- A map holds an entity when the value of an entry does. -/
theorem holdsEntity_map (entries : List (String × Value)) :
    holdsEntity (.map entries) = entries.any fun entry => holdsEntity entry.2 := by
  rw [holdsEntity]
  induction entries with
  | nil => rfl
  | cons entry rest ih => rw [entriesHoldEntity, ih, List.any_cons]

/-- A list has an entity in a map when an item does. -/
theorem entityInMap_array (items : List Value) :
    entityInMap (.array items) = items.any entityInMap := by
  rw [entityInMap]
  induction items with
  | nil => rfl
  | cons item rest ih => rw [itemsEntityInMap, ih, List.any_cons]

/-- A map has an entity in a map when it holds one. -/
theorem entityInMap_map (entries : List (String × Value)) :
    entityInMap (.map entries) = holdsEntity (.map entries) := by
  rw [entityInMap, holdsEntity]

/-- One value equals the other exactly if nothing was lost. -/
def Agrees (lost : Bool) (left right : Value) : Prop :=
  left.same right = !lost ∧ right.same left = !lost

namespace Agrees

variable {lost : Value → Bool}

/-- Values that are alike lost nothing. -/
theorem of_alike {left right : Value} (alike : left.Alike right) : Agrees false left right :=
  alike

/-- A list lost something when an item did. -/
theorem array {lefts rights : List Value}
    (each : List.Forall₂ (fun left right => Agrees (lost right) left right) lefts rights) :
    Agrees (rights.any lost) (.array lefts) (.array rights) := by
  unfold Agrees
  rw [same, same]
  induction each with
  | nil => exact ⟨by rw [sameItems]; rfl, by rw [sameItems]; rfl⟩
  | cons first _ ih =>
    rw [sameItems, sameItems, first.1, first.2, ih.1, ih.2, List.any_cons, Bool.not_or]
    exact ⟨rfl, rfl⟩

/-- Entries that stand for each other are compared with each other. -/
theorem entries {lefts rights left right : List (String × Value)}
    (each : List.Forall₂ (fun one other => one.1 = other.1 ∧ Agrees (lost other.2) one.2 other.2)
      lefts rights)
    (onLeft : ∀ entry ∈ lefts, Keyed.get? entry.1 left = some entry.2)
    (onRight : ∀ entry ∈ rights, Keyed.get? entry.1 right = some entry.2) :
    (sameEntries lefts right = !rights.any fun entry => lost entry.2) ∧
      sameEntries rights left = !rights.any fun entry => lost entry.2 := by
  induction each with
  | nil => exact ⟨by rw [sameEntries]; rfl, by rw [sameEntries]; rfl⟩
  | @cons one other lefts rights first _ ih =>
    obtain ⟨key, value⟩ := one
    obtain ⟨name, counterpart⟩ := other
    obtain ⟨rfl, forth, back⟩ := first
    obtain ⟨here, later⟩ := List.forall_mem_cons.mp onLeft
    obtain ⟨there, others⟩ := List.forall_mem_cons.mp onRight
    obtain ⟨ahead, behind⟩ := ih later others
    dsimp only at here there forth back
    rw [sameEntries, sameEntries, here, there, ahead, behind, List.any_cons, Bool.not_or]
    exact ⟨by simp only [forth], by simp only [back]⟩

/-- A map lost something when the value of an entry did. -/
theorem map {left right : List (String × Value)} (apart : Keyed.Distinct right)
    (each : List.Forall₂ (fun one other => one.1 = other.1 ∧ Agrees (lost other.2) one.2 other.2)
      left right) :
    Agrees (right.any fun entry => lost entry.2) (.map left) (.map right) := by
  have keys : Keyed.keys left = Keyed.keys right :=
    @keys_of_forall₂ Value Value (fun one other => Agrees (lost other) one other) left right each
  have names : Keyed.Distinct left := by
    rw [Keyed.Distinct, keys]
    exact apart
  obtain ⟨forth, back⟩ := entries each (fun entry member => Keyed.get?_of_mem names member)
    fun entry member => Keyed.get?_of_mem apart member
  have count := each.length_eq
  unfold Agrees
  rw [same, same, forth, back, count]
  simp

end Agrees

end EntityMapping.Value
