import EntityMapping.Bson.Basic
/-!
# Documents with distinct names

A document stores every name once; a list of entries may name one twice. What is
read back from a stream is `Bson.rebuilt`: a repeated name keeps its first place
and takes its last value. Where no document at any depth repeats a name, which is
`Bson.Distinct`, reading back gives the value itself.
-/

namespace EntityMapping

namespace Bson

mutual

/-- The value with the entries of every document stored one after the other. -/
def rebuilt : Bson → Bson
  | .array items => .array (rebuiltItems items)
  | .document entries => .document (Keyed.ofPairs (rebuiltEntries entries))
  | value => value

/-- The items of an array, rebuilt. -/
def rebuiltItems : List Bson → List Bson
  | [] => []
  | item :: rest => rebuilt item :: rebuiltItems rest

/-- The entries of a document with their values rebuilt. -/
def rebuiltEntries : List (String × Bson) → List (String × Bson)
  | [] => []
  | (key, value) :: rest => (key, rebuilt value) :: rebuiltEntries rest

end

/-- Items are rebuilt one by one. -/
theorem rebuiltItems_eq (items : List Bson) : rebuiltItems items = items.map rebuilt := by
  induction items with
  | nil => rw [rebuiltItems, List.map_nil]
  | cons item rest ih => rw [rebuiltItems, ih, List.map_cons]

/-- Entries are rebuilt one by one, under their names. -/
theorem rebuiltEntries_eq (entries : List (String × Bson)) :
    rebuiltEntries entries = entries.map fun entry => (entry.1, rebuilt entry.2) := by
  induction entries with
  | nil => rw [rebuiltEntries, List.map_nil]
  | cons entry rest ih => rw [rebuiltEntries, ih, List.map_cons]

mutual

/-- No document at any depth stores a name twice. -/
def Distinct : Bson → Prop
  | .array items => ItemsDistinct items
  | .document entries => Keyed.Distinct entries ∧ EntriesDistinct entries
  | _ => True

/-- Every item has distinct names. -/
def ItemsDistinct : List Bson → Prop
  | [] => True
  | item :: rest => Distinct item ∧ ItemsDistinct rest

/-- The value of every entry has distinct names. -/
def EntriesDistinct : List (String × Bson) → Prop
  | [] => True
  | (_, value) :: rest => Distinct value ∧ EntriesDistinct rest

end

mutual

/-- Rebuilding a value with distinct names changes nothing. -/
theorem rebuilt_distinct : ∀ {value : Bson}, Distinct value → rebuilt value = value
  | .array items, distinct => by
    rw [rebuilt, rebuiltItems_distinct (by simpa [Distinct] using distinct)]
  | .document entries, distinct => by
    have parts : Keyed.Distinct entries ∧ EntriesDistinct entries := by
      simpa [Distinct] using distinct
    rw [rebuilt, rebuiltEntries_distinct parts.2, Keyed.ofPairs_distinct parts.1]
  | .null, _ | .boolean _, _ | .int32 _, _ | .int64 _, _ | .double _, _ | .string _, _
  | .objectId _, _ | .dateTime _, _ | .regex _ _, _ | .code _, _ | .scopedCode _ _, _
  | .binary _ _, _ | .timestamp _ _, _ | .decimal _, _ | .symbol _, _ | .undefined, _
  | .minKey, _ | .maxKey, _ | .reference _ _, _ => by simp [rebuilt]

/-- Rebuilding items with distinct names changes nothing. -/
theorem rebuiltItems_distinct :
    ∀ {items : List Bson}, ItemsDistinct items → rebuiltItems items = items
  | [], _ => by rw [rebuiltItems]
  | item :: rest, distinct => by
    have parts : Distinct item ∧ ItemsDistinct rest := by
      simpa [ItemsDistinct] using distinct
    rw [rebuiltItems, rebuilt_distinct parts.1, rebuiltItems_distinct parts.2]

/-- Rebuilding entries with distinct names in their values changes nothing. -/
theorem rebuiltEntries_distinct :
    ∀ {entries : List (String × Bson)}, EntriesDistinct entries →
      rebuiltEntries entries = entries
  | [], _ => by rw [rebuiltEntries]
  | (key, value) :: rest, distinct => by
    have parts : Distinct value ∧ EntriesDistinct rest := by
      simpa [EntriesDistinct] using distinct
    rw [rebuiltEntries, rebuilt_distinct parts.1, rebuiltEntries_distinct parts.2]

end

/-- Items have distinct names if each of them has. -/
theorem itemsDistinct_iff {items : List Bson} :
    ItemsDistinct items ↔ ∀ item ∈ items, Distinct item := by
  induction items with
  | nil => simp [ItemsDistinct]
  | cons first rest ih => rw [ItemsDistinct, ih, List.forall_mem_cons]

/-- Entries have distinct names if the value of each of them has. -/
theorem entriesDistinct_iff {entries : List (String × Bson)} :
    EntriesDistinct entries ↔ ∀ entry ∈ entries, Distinct entry.2 := by
  induction entries with
  | nil => simp [EntriesDistinct]
  | cons first rest ih => rw [EntriesDistinct, ih, List.forall_mem_cons]

/-- Every item of items with distinct names has distinct names. -/
theorem ItemsDistinct.of_mem {items : List Bson} (distinct : ItemsDistinct items) {item : Bson}
    (member : item ∈ items) : Distinct item :=
  itemsDistinct_iff.mp distinct item member

/-- Every value of entries with distinct names has distinct names. -/
theorem EntriesDistinct.of_mem {entries : List (String × Bson)}
    (distinct : EntriesDistinct entries) {entry : String × Bson} (member : entry ∈ entries) :
    Distinct entry.2 :=
  entriesDistinct_iff.mp distinct entry member

end Bson

/-- Storing a value with distinct names keeps the values of entries so. -/
theorem Bson.EntriesDistinct.insert {entries : List (String × Bson)} {value : Bson}
    (distinct : EntriesDistinct entries) (fresh : value.Distinct) (key : String) :
    EntriesDistinct (Keyed.insert key value entries) := by
  induction entries with
  | nil => exact ⟨fresh, distinct⟩
  | cons entry rest ih =>
    obtain ⟨name, old⟩ := entry
    rw [EntriesDistinct] at distinct
    rw [Keyed.insert]
    split
    · exact ⟨fresh, distinct.2⟩
    · exact ⟨distinct.1, ih distinct.2⟩

/-- A document and every document in it store no name twice. -/
def Document.Distinct (document : Document) : Prop :=
  Bson.Distinct (.document document)

namespace Document

/-- A document without entries stores no name twice. -/
theorem Distinct.nil : Distinct [] := by
  simp [Distinct, Bson.Distinct, Bson.EntriesDistinct, Keyed.Distinct, Keyed.keys]

/-- Storing a value with distinct names keeps a document so. -/
theorem Distinct.insert {document : Document} {value : Bson} (distinct : document.Distinct)
    (fresh : value.Distinct) (key : String) : Distinct (Keyed.insert key value document) := by
  obtain ⟨names, values⟩ : Keyed.Distinct document ∧ Bson.EntriesDistinct document := by
    simpa [Distinct, Bson.Distinct] using distinct
  have kept : Keyed.Distinct (Keyed.insert key value document) ∧
      Bson.EntriesDistinct (Keyed.insert key value document) :=
    ⟨names.insert key value, values.insert fresh key⟩
  simpa [Distinct, Bson.Distinct] using kept

end Document

end EntityMapping
