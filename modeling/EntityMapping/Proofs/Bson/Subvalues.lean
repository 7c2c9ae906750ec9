import EntityMapping.Bson.Basic
/-!
# The values in a stored value

A stored value is a single one, or it is made of values: the items of an array, the
entries of a document, the scope of a piece of code, which is a document as well. What
holds of a value as soon as it holds of its parts holds of every value. Documents keep
their names apart, at every depth and in every scope.
-/

namespace EntityMapping.Bson

/-- Whether a stored value has no parts. -/
def isSingle : Bson → Bool
  | array _ | document _ | scopedCode _ _ => false
  | _ => true

/-- The value of an entry is smaller than the entries. -/
theorem sizeOf_entry {entries : List (String × Bson)} {entry : String × Bson}
    (member : entry ∈ entries) : sizeOf entry.2 < sizeOf entries := by
  have whole := List.sizeOf_lt_of_mem member
  obtain ⟨name, value⟩ := entry
  simp only [Prod.mk.sizeOf_spec] at whole
  dsimp only
  omega

/-- What parts pass on to the whole holds of every stored value. -/
@[elab_as_elim] theorem parts_induction {motive : Bson → Prop}
    (single : ∀ value, value.isSingle = true → motive value)
    (array : ∀ items, (∀ item ∈ items, motive item) → motive (.array items))
    (document : ∀ entries : List (String × Bson), (∀ entry ∈ entries, motive entry.2) →
      motive (.document entries))
    (scopedCode : ∀ source (scope : List (String × Bson)), (∀ entry ∈ scope, motive entry.2) →
      motive (.scopedCode source scope)) :
    ∀ value, motive value
  | .array items => array items fun item member =>
    have : sizeOf item < sizeOf items := List.sizeOf_lt_of_mem member
    parts_induction single array document scopedCode item
  | .document entries => document entries fun entry member =>
    have : sizeOf entry.2 < sizeOf entries := sizeOf_entry member
    parts_induction single array document scopedCode entry.2
  | .scopedCode source scope => scopedCode source scope fun entry member =>
    have : sizeOf entry.2 < sizeOf scope := sizeOf_entry member
    parts_induction single array document scopedCode entry.2
  | .null | .boolean _ | .int32 _ | .int64 _ | .double _ | .string _ | .objectId _ | .dateTime _
  | .regex _ _ | .code _ | .binary _ _ | .timestamp _ _ | .decimal _ | .symbol _ | .undefined
  | .minKey | .maxKey | .reference _ _ => single _ rfl
termination_by value => sizeOf value
decreasing_by all_goals simp +arith; omega

mutual

/-- A value and the values in it, each before those in it. -/
def subvalues : Bson → List Bson
  | .array items => .array items :: itemSubvalues items
  | .document entries => .document entries :: entrySubvalues entries
  | .scopedCode source scope =>
    .scopedCode source scope :: .document scope :: entrySubvalues scope
  | single => [single]

/-- The items and the values in them. -/
def itemSubvalues : List Bson → List Bson
  | [] => []
  | item :: rest => subvalues item ++ itemSubvalues rest

/-- The values of entries and the values in them. -/
def entrySubvalues : List (String × Bson) → List Bson
  | [] => []
  | (_, value) :: rest => subvalues value ++ entrySubvalues rest

end

/-- A value without parts is all that is in it. -/
theorem subvalues_single {value : Bson} (simple : value.isSingle = true) :
    value.subvalues = [value] := by
  cases value with
  | array | document | scopedCode => cases simple
  | _ => simp only [subvalues]

/-- The values in items, item by item. -/
theorem itemSubvalues_eq (items : List Bson) : itemSubvalues items = items.flatMap subvalues := by
  induction items with
  | nil => rw [itemSubvalues, List.flatMap_nil]
  | cons item rest ih => rw [itemSubvalues, ih, List.flatMap_cons]

/-- The values in entries, entry by entry. -/
theorem entrySubvalues_eq (entries : List (String × Bson)) :
    entrySubvalues entries = entries.flatMap fun entry => subvalues entry.2 := by
  induction entries with
  | nil => rw [entrySubvalues, List.flatMap_nil]
  | cons entry rest ih => rw [entrySubvalues, ih, List.flatMap_cons]

/-- Something holds of every value in a value. -/
def Each (holds : Bson → Prop) (value : Bson) : Prop :=
  ∀ part ∈ value.subvalues, holds part

section

variable {holds : Bson → Prop}

/-- In a value without parts there is only the value. -/
theorem each_single {value : Bson} (simple : value.isSingle = true) :
    value.Each holds ↔ holds value := by
  rw [Each, subvalues_single simple, List.forall_mem_singleton]

/-- Something holds of every value in an array if it holds of the array and in every item. -/
theorem each_array {items : List Bson} :
    Each holds (.array items) ↔ holds (.array items) ∧ ∀ item ∈ items, Each holds item := by
  simp only [Each, subvalues, itemSubvalues_eq, List.forall_mem_cons, List.forall_mem_flatMap]

/-- Something holds of every value in a document if it holds of the document and in every
entry. -/
theorem each_document {entries : List (String × Bson)} :
    Each holds (.document entries) ↔
      holds (.document entries) ∧ ∀ entry ∈ entries, Each holds entry.2 := by
  simp only [Each, subvalues, entrySubvalues_eq, List.forall_mem_cons, List.forall_mem_flatMap]

/-- Something holds of every value in a piece of code if it holds of the code and of every value
in its scope. -/
theorem each_scopedCode {source : String} {scope : List (String × Bson)} :
    Each holds (.scopedCode source scope) ↔
      holds (.scopedCode source scope) ∧ Each holds (.document scope) := by
  simp only [Each, subvalues, List.forall_mem_cons]

end

/-- A value does not store a name twice, if it is a document. -/
def namesApart : Bson → Prop
  | .document entries => Keyed.Distinct entries
  | _ => True

/-- No document in a value, scopes of code included, stores a name twice. -/
def Apart (value : Bson) : Prop := value.Each namesApart

/-- A value without parts has no document in it. -/
theorem Apart.single {value : Bson} (simple : value.isSingle = true) : value.Apart := by
  rw [Apart, each_single simple]
  cases value with
  | array | document | scopedCode => cases simple
  | _ => trivial

/-- An array keeps names apart where its items do. -/
theorem apart_array {items : List Bson} :
    Apart (.array items) ↔ ∀ item ∈ items, item.Apart := by
  simp only [Apart, each_array, namesApart, true_and]

/-- Storing a value that keeps names apart in a document that does keeps them apart. -/
theorem Apart.insert {entries : List (String × Bson)} {value : Bson}
    (apart : Apart (.document entries)) (fresh : value.Apart) (key : String) :
    Apart (.document (Keyed.insert key value entries)) := by
  obtain ⟨own, inside⟩ := each_document.mp apart
  refine each_document.mpr ⟨own.insert key value, fun entry member => ?_⟩
  rcases Keyed.mem_insert member with rfl | old
  · exact fresh
  · exact inside entry old

/-- A document without entries keeps names apart. -/
theorem Apart.empty : Apart (.document []) :=
  each_document.mpr ⟨List.nodup_nil, by simp⟩

end EntityMapping.Bson
