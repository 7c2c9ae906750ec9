import EntityMapping.Proofs.Keyed.Pairing
import EntityMapping.Value.Equality
/-!
# Values that equal each other

Equality of values looks past the order of names and, in entities, past empty lists
and maps. Two values are alike when each equals the other. Alike parts make alike
wholes; entities are alike as soon as every property that counts has an alike one on
the other side.
-/

namespace EntityMapping

/-- Two values that equal each other. -/
def Value.Alike (left right : Value) : Prop :=
  left.same right = true ∧ right.same left = true

namespace Value

/-- Two values are equal. -/
def Same (left right : Value) : Prop := left.same right = true

/-- Whether a property with this value counts when entities are compared. -/
def isSignificant (value : Value) : Bool := !value.isEmptyCollection

variable {right : Value}

/-- Being alike does not depend on the order. -/
theorem Alike.symm {left right : Value} (alike : left.Alike right) : right.Alike left :=
  ⟨alike.2, alike.1⟩

/-- Equality of items goes item by item. -/
theorem sameItems_iff {lefts rights : List Value} :
    sameItems lefts rights = true ↔ List.Forall₂ Same lefts rights := by
  induction lefts generalizing rights with
  | nil => cases rights <;> simp [sameItems]
  | cons left rest ih => cases rights <;> simp [sameItems, ih, Same]

/-- A list equals lists of equal items. -/
theorem same_array {items : List Value} :
    (Value.array items).Same right ↔
      ∃ others, right = .array others ∧ List.Forall₂ Same items others := by
  rw [Same]
  cases right <;> simp [same, sameItems_iff]

/-- Lists of alike items are alike. -/
theorem Alike.array {lefts rights : List Value} (each : List.Forall₂ Alike lefts rights) :
    (Value.array lefts).Alike (.array rights) := by
  constructor
  · exact same_array.mpr ⟨rights, rfl, each.imp fun _ _ alike => alike.1⟩
  · exact same_array.mpr ⟨lefts, rfl, each.flip.imp fun _ _ alike => alike.2⟩

/-- Every entry on the left is looked up on the right. -/
theorem sameEntries_iff {left right : List (String × Value)} :
    sameEntries left right = true ↔ ∀ entry ∈ left, ∃ other,
      Keyed.get? entry.1 right = some other ∧ entry.2.same other = true := by
  induction left with
  | nil => simp [sameEntries]
  | cons entry rest ih =>
    obtain ⟨key, value⟩ := entry
    rw [sameEntries, Bool.and_eq_true, ih, List.forall_mem_cons]
    apply and_congr_left
    intro _
    cases Keyed.get? key right <;> simp

/-- A map equals maps of equal values under the same names. -/
theorem same_map {entries : List (String × Value)} :
    (Value.map entries).Same right ↔
      ∃ others, right = .map others ∧ Keyed.Paired (fun _ => true) Same entries others := by
  have paired : ∀ others, Keyed.Paired (fun _ => true) Same entries others ↔
      entries.length = others.length ∧ sameEntries entries others = true := by
    intro others
    rw [Keyed.paired_all, sameEntries_iff]
    rfl
  rw [Same]
  cases right <;> simp [same, paired]

/-- The keys of entries that correspond one by one are the same. -/
theorem keys_of_forall₂ {α β : Type} {related : α → β → Prop} {left : Keyed α} {right : Keyed β}
    (each : List.Forall₂ (fun one other => one.1 = other.1 ∧ related one.2 other.2) left right) :
    Keyed.keys left = Keyed.keys right := by
  induction each with
  | nil => rfl
  | cons first _ ih =>
    rw [Keyed.keys, Keyed.keys, List.map_cons, List.map_cons, first.1]
    exact congrArg _ ih

/-- An entry on the left has one of its name on the right. -/
theorem exists_of_forall₂ {α β : Type} {related : α → β → Prop} {left : Keyed α} {right : Keyed β}
    (each : List.Forall₂ (fun one other => one.1 = other.1 ∧ related one.2 other.2) left right) :
    ∀ entry ∈ left, ∃ other, (entry.1, other) ∈ right ∧ related entry.2 other := by
  induction each with
  | nil => simp
  | cons first _ ih =>
    intro entry member
    rcases List.mem_cons.mp member with rfl | later
    · exact ⟨_, by rw [first.1]; exact List.mem_cons_self .., first.2⟩
    · obtain ⟨other, known, alike⟩ := ih entry later
      exact ⟨other, List.mem_cons_of_mem _ known, alike⟩

/-- Maps of alike entries in one order are alike. -/
theorem Alike.map {left right : List (String × Value)} (apart : Keyed.Distinct right)
    (each : List.Forall₂ (fun one other => one.1 = other.1 ∧ one.2.Alike other.2) left right) :
    (Value.map left).Alike (.map right) := by
  have one : ∀ {left right : List (String × Value)}, Keyed.Distinct right →
      List.Forall₂ (fun one other => one.1 = other.1 ∧ one.2.Alike other.2) left right →
      (Value.map left).Same (.map right) := by
    intro left right apart each
    refine same_map.mpr ⟨right, rfl, Keyed.paired_all.mpr ⟨each.length_eq, fun entry member => ?_⟩⟩
    obtain ⟨other, known, alike⟩ := exists_of_forall₂ each entry member
    exact ⟨other, Keyed.get?_of_mem apart known, alike.1⟩
  have other : Keyed.Distinct left := by
    rw [Keyed.Distinct, keys_of_forall₂ each]
    exact apart
  exact ⟨one apart each, one other
    (each.flip.imp fun _ _ related => ⟨related.1.symm, related.2.symm⟩)⟩

/-- An equal value is empty when the value is. -/
theorem isEmptyCollection_of_same {left right : Value} (equal : left.same right = true) :
    left.isEmptyCollection = right.isEmptyCollection := by
  cases left <;> cases right <;> simp_all [same, isEmptyCollection]
  · rename_i lefts rights
    cases lefts <;> cases rights <;> simp_all [sameItems]
  · rename_i lefts rights
    cases lefts <;> cases rights <;> simp_all

/-- Every significant property on the left is looked up on the right. -/
theorem sameProperties_iff {left right : List (String × Value)} :
    sameProperties left right = true ↔ ∀ entry ∈ left, entry.2.isEmptyCollection = false →
      ∃ other, Keyed.get? entry.1 right = some other ∧ entry.2.same other = true := by
  induction left with
  | nil => simp [sameProperties]
  | cons entry rest ih =>
    obtain ⟨key, value⟩ := entry
    rw [sameProperties, Bool.and_eq_true, ih, List.forall_mem_cons]
    apply and_congr_left
    intro _
    cases value.isEmptyCollection <;> cases Keyed.get? key right <;> simp

/-- An entity equals those of its kind with equal properties, as far as they count. -/
theorem same_entity {kind : String} {properties : List (String × Value)} :
    (Value.entity kind properties).Same right ↔
      ∃ others, right = .entity kind others ∧
        Keyed.Paired isSignificant Same properties others := by
  have paired : ∀ others, Keyed.Paired isSignificant Same properties others ↔
      (significant properties).length = (significant others).length ∧
        sameProperties properties others = true := by
    intro others
    rw [Keyed.paired_iff, sameProperties_iff]
    simp only [isSignificant, Bool.not_eq_true']
    rfl
  rw [Same]
  cases right with
  | entity otherKind others =>
    simp only [same, Bool.and_eq_true, decide_eq_true_eq, entity.injEq, paired]
    constructor
    · rintro ⟨⟨rfl, count⟩, found⟩
      exact ⟨others, ⟨rfl, rfl⟩, count, found⟩
    · rintro ⟨_, ⟨rfl, rfl⟩, count, found⟩
      exact ⟨⟨rfl, count⟩, found⟩
  | _ => simp [same]

/-- Of equal values both count, or none. -/
theorem isSignificant_of_same (one other : Value) (equal : one.Same other) :
    one.isSignificant = other.isSignificant := by
  rw [isSignificant, isSignificant, isEmptyCollection_of_same equal]

/-- The properties on the left that count have alike ones on the right. -/
def Covered (left right : List (String × Value)) : Prop :=
  ∀ name value, Keyed.get? name left = some value → value.isEmptyCollection = false →
    ∃ other, Keyed.get? name right = some other ∧ value.Alike other

/-- What counts on the left has an equal partner on the right. -/
theorem Covered.found {left right : List (String × Value)} (apart : Keyed.Distinct left)
    (covered : Covered left right) : ∀ entry ∈ Keyed.counted isSignificant left, ∃ value,
      Keyed.get? entry.1 right = some value ∧ entry.2.Same value := by
  intro entry member
  obtain ⟨listed, counts⟩ := List.mem_filter.mp member
  have filled : entry.2.isEmptyCollection = false := by simpa [isSignificant] using counts
  obtain ⟨other, known, alike⟩ := covered _ _ (Keyed.get?_of_mem apart listed) filled
  exact ⟨other, known, alike.1⟩

/-- Entities of one kind whose properties cover each other are alike. -/
theorem Alike.entity (kind : String) {left right : List (String × Value)}
    (leftApart : Keyed.Distinct left) (rightApart : Keyed.Distinct right)
    (forth : Covered left right) (back : Covered right left) :
    (Value.entity kind left).Alike (.entity kind right) := by
  have one := forth.found leftApart
  have other := back.found rightApart
  constructor
  · exact same_entity.mpr
      ⟨right, rfl, Keyed.paired_of_found isSignificant_of_same leftApart rightApart one other⟩
  · exact same_entity.mpr
      ⟨left, rfl, Keyed.paired_of_found isSignificant_of_same rightApart leftApart other one⟩

end Value

end EntityMapping
