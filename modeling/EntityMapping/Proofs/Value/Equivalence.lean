import EntityMapping.Proofs.Keyed.Pairing
import EntityMapping.Proofs.Value.Reflexive
/-!
# Equality is an equivalence

Equality pairs entries by their names, and so it is symmetric where names are kept apart, and
transitive in any case. A value equals itself unless a NaN is in it. Entities cannot be told apart
by equality where their properties differ in order, or by empty lists and maps.
-/

namespace EntityMapping

namespace Binary64

/-- Numeric equality passes over a number in the middle. -/
theorem same_trans {one other last : Binary64} (first : one.same other = true)
    (second : other.same last = true) : one.same last = true := by
  simp only [same, Bool.and_eq_true, Bool.or_eq_true, decide_eq_true_eq] at *
  obtain ⟨⟨number, -⟩, equal⟩ := first
  obtain ⟨⟨-, final⟩, again⟩ := second
  refine ⟨⟨number, final⟩, ?_⟩
  rcases equal with rfl | zeros
  · exact again
  · rcases again with rfl | others
    · exact .inr zeros
    · exact .inr ⟨zeros.1, others.2⟩

end Binary64

/-! ## Stored values -/

namespace Bson

/-- Two stored values are equal. -/
def Same (left right : Bson) : Prop := left.same right = true

variable {left right : Bson}

/-- Equality of items goes item by item. -/
theorem sameItems_iff {lefts rights : List Bson} :
    sameItems lefts rights = true ↔ List.Forall₂ Same lefts rights := by
  induction lefts generalizing rights with
  | nil => cases rights <;> simp [sameItems]
  | cons left rest ih => cases rights <;> simp [sameItems, ih, Same]

/-- Equality of entries goes by names. -/
theorem paired_iff {lefts rights : List (String × Bson)} :
    Keyed.Paired (fun _ => true) Same lefts rights ↔
      lefts.length = rights.length ∧ sameEntries lefts rights = true := by
  rw [Keyed.paired_all, sameEntries_iff]
  rfl

/-- A value without parts equals itself only, a number its equals. -/
theorem same_single (simple : left.isSingle = true) :
    left.Same right ↔ (left = right ∧ ∀ number, left ≠ .double number) ∨
      ∃ one other, left = .double one ∧ right = .double other ∧ one.same other = true := by
  unfold Same
  cases left <;> cases right <;> simp_all [same, isSingle]

/-- An array equals arrays of equal items. -/
theorem same_array {items : List Bson} :
    (Bson.array items).Same right ↔
      ∃ others, right = .array others ∧ List.Forall₂ Same items others := by
  rw [Same]
  cases right <;> simp [same, sameItems_iff]

/-- A document equals documents of equal values under the same names. -/
theorem same_document {entries : List (String × Bson)} :
    (Bson.document entries).Same right ↔
      ∃ others, right = .document others ∧ Keyed.Paired (fun _ => true) Same entries others := by
  rw [Same]
  cases right <;> simp [same, paired_iff]

/-- A piece of code equals the same source with an equal scope. -/
theorem same_scopedCode {source : String} {scope : List (String × Bson)} :
    (Bson.scopedCode source scope).Same right ↔
      ∃ others, right = .scopedCode source others ∧
        Keyed.Paired (fun _ => true) Same scope others := by
  rw [Same]
  cases right with
  | scopedCode otherSource otherScope =>
    simp only [same, Bool.and_eq_true, decide_eq_true_eq, scopedCode.injEq, paired_iff]
    constructor
    · rintro ⟨⟨rfl, count⟩, found⟩
      exact ⟨otherScope, ⟨rfl, rfl⟩, count, found⟩
    · rintro ⟨others, ⟨rfl, rfl⟩, count, found⟩
      exact ⟨⟨rfl, count⟩, found⟩
  | _ => simp [same]

/-- Equality of stored values does not depend on the order of its sides. -/
theorem symmetricAt {stored : Bson} (apart : stored.Apart) : SymmetricAt Same stored := by
  induction stored using Bson.parts_induction with
  | single value simple =>
    intro other equal
    rcases (same_single simple).mp equal with ⟨rfl, -⟩ | ⟨one, another, rfl, rfl, number⟩
    · exact equal
    · rw [Same, same, Binary64.same_comm]
      exact number
  | array items ih =>
    intro other equal
    obtain ⟨others, rfl, each⟩ := same_array.mp equal
    refine same_array.mpr ⟨items, rfl, ?_⟩
    exact SymmetricAt.items
      (fun item member => ih item member (apart_array.mp apart item member)) _ each
  | document entries ih =>
    intro other equal
    obtain ⟨own, inside⟩ := each_document.mp apart
    obtain ⟨others, rfl, paired⟩ := same_document.mp equal
    refine same_document.mpr ⟨entries, rfl, ?_⟩
    exact Keyed.Paired.symmetricAt (fun _ _ _ => rfl) own
      (fun entry member => ih entry member (inside entry member)) _ paired
  | scopedCode source scope ih =>
    intro other equal
    obtain ⟨own, inside⟩ := each_document.mp (each_scopedCode.mp apart).2
    obtain ⟨others, rfl, paired⟩ := same_scopedCode.mp equal
    refine same_scopedCode.mpr ⟨scope, rfl, ?_⟩
    exact Keyed.Paired.symmetricAt (fun _ _ _ => rfl) own
      (fun entry member => ih entry member (inside entry member)) _ paired

/-- Equality of stored values passes over a value in the middle. -/
theorem transitiveAt (stored : Bson) : TransitiveAt Same stored := by
  induction stored using Bson.parts_induction with
  | single value simple =>
    intro other last equal again
    rcases (same_single simple).mp equal with ⟨rfl, -⟩ | ⟨one, another, rfl, rfl, number⟩
    · exact again
    · rcases (same_single rfl).mp again with ⟨-, absurd⟩ | ⟨_, final, same, rfl, next⟩
      · exact (absurd another rfl).elim
      · obtain rfl := Bson.double.inj same
        rw [Same, Bson.same]
        exact Binary64.same_trans number next
  | array items ih =>
    intro other last equal again
    obtain ⟨others, rfl, each⟩ := same_array.mp equal
    obtain ⟨lasts, rfl, next⟩ := same_array.mp again
    exact same_array.mpr ⟨lasts, rfl, TransitiveAt.items ih _ _ each next⟩
  | document entries ih =>
    intro other last equal again
    obtain ⟨others, rfl, paired⟩ := same_document.mp equal
    obtain ⟨lasts, rfl, next⟩ := same_document.mp again
    refine same_document.mpr ⟨lasts, rfl, ?_⟩
    exact Keyed.Paired.transitiveAt (fun _ _ _ => rfl) ih _ _ paired next
  | scopedCode source scope ih =>
    intro other last equal again
    obtain ⟨others, rfl, paired⟩ := same_scopedCode.mp equal
    obtain ⟨lasts, rfl, next⟩ := same_scopedCode.mp again
    refine same_scopedCode.mpr ⟨lasts, rfl, ?_⟩
    exact Keyed.Paired.transitiveAt (fun _ _ _ => rfl) ih _ _ paired next

/-- A stored value equals itself exactly where no NaN is in it. -/
theorem same_self_iff {stored : Bson} (apart : stored.Apart) :
    stored.Same stored ↔ stored.Each notNaN := by
  refine ⟨fun equal => ?_, same_self apart⟩
  induction stored using Bson.parts_induction with
  | single value simple =>
    rw [each_single simple]
    rcases (same_single simple).mp equal with ⟨-, other⟩ | ⟨one, another, rfl, same, number⟩
    · cases value <;> first | trivial | exact (other _ rfl).elim
    · obtain rfl := Bson.double.inj same
      simpa [Binary64.same_self, notNaN] using number
  | array items ih =>
    obtain ⟨_, ⟨⟩, each⟩ := same_array.mp equal
    rw [List.forall₂_same] at each
    refine each_array.mpr ⟨trivial, fun item member => ?_⟩
    exact ih item member (apart_array.mp apart item member) (each item member)
  | document entries ih =>
    obtain ⟨own, inside⟩ := each_document.mp apart
    obtain ⟨_, ⟨⟩, paired⟩ := same_document.mp equal
    refine each_document.mpr ⟨trivial, fun entry member => ?_⟩
    exact ih entry member (inside entry member) ((Keyed.paired_self own).mp paired entry member rfl)
  | scopedCode source scope ih =>
    obtain ⟨own, inside⟩ := each_document.mp (each_scopedCode.mp apart).2
    obtain ⟨_, ⟨⟩, paired⟩ := same_scopedCode.mp equal
    refine each_scopedCode.mpr ⟨trivial, each_document.mpr ⟨trivial, fun entry member => ?_⟩⟩
    exact ih entry member (inside entry member) ((Keyed.paired_self own).mp paired entry member rfl)

end Bson

/-! ## Values -/

namespace Value

/-- No map, entity or stored document in a value names an entry twice. -/
inductive NamesApart : Value → Prop where
  /-- A value without parts, and what is stored in it. -/
  | single {value : Value} (simple : value.isSingle = true)
    (raw : ∀ stored, value = .other stored → stored.Apart) : NamesApart value
  /-- A list of such values. -/
  | array {items : List Value} (each : ∀ item ∈ items, NamesApart item) :
    NamesApart (.array items)
  /-- A map of such values under names of their own. -/
  | map {entries : List (String × Value)} (apart : Keyed.Distinct entries)
    (each : ∀ entry ∈ entries, NamesApart entry.2) : NamesApart (.map entries)
  /-- An entity of such properties under names of their own. -/
  | entity {kind : String} {properties : List (String × Value)}
    (apart : Keyed.Distinct properties) (each : ∀ entry ∈ properties, NamesApart entry.2) :
    NamesApart (.entity kind properties)

/-- A number in a value is NaN, at whatever depth. -/
inductive HoldsNaN : Value → Prop where
  /-- The value is NaN. -/
  | number {number : Binary64} (is : number.isNaN = true) : HoldsNaN (.double number)
  /-- A number in a stored value is NaN. -/
  | raw {stored : Bson} (inside : ¬ stored.Each Bson.notNaN) : HoldsNaN (.other stored)
  /-- An item of a list holds NaN. -/
  | item {items : List Value} {item : Value} (member : item ∈ items) (inside : HoldsNaN item) :
    HoldsNaN (.array items)
  /-- A value of a map holds NaN. -/
  | entry {entries : List (String × Value)} {entry : String × Value} (member : entry ∈ entries)
    (inside : HoldsNaN entry.2) : HoldsNaN (.map entries)
  /-- A property of an entity holds NaN. -/
  | property {kind : String} {properties : List (String × Value)} {entry : String × Value}
    (member : entry ∈ properties) (inside : HoldsNaN entry.2) :
    HoldsNaN (.entity kind properties)

variable {left right : Value}

/-- A value without parts equals itself only, a number its equals, and a stored value those that
are equal as stored. -/
theorem same_single (simple : left.isSingle = true) :
    left.Same right ↔
      (left = right ∧ (∀ number, left ≠ .double number) ∧ ∀ stored, left ≠ .other stored) ∨
      (∃ one other, left = .double one ∧ right = .double other ∧ one.same other = true) ∨
      ∃ one other, left = .other one ∧ right = .other other ∧ one.Same other := by
  unfold Same Bson.Same
  cases left <;> cases right <;> simp_all [same, isSingle]

/-- Equality of values does not depend on the order of its sides. -/
theorem NamesApart.symmetricAt {value : Value} (apart : value.NamesApart) :
    SymmetricAt Same value := by
  induction apart with
  | single simple raw =>
    intro other equal
    rcases (same_single simple).mp equal with
      ⟨rfl, -⟩ | ⟨one, another, rfl, rfl, number⟩ | ⟨one, another, rfl, rfl, stored⟩
    · exact equal
    · rw [Same, same, Binary64.same_comm]
      exact number
    · rw [Same, same]
      exact Bson.symmetricAt (raw one rfl) another stored
  | @array items _ ih =>
    intro other equal
    obtain ⟨others, rfl, each⟩ := same_array.mp equal
    exact same_array.mpr ⟨items, rfl, SymmetricAt.items ih _ each⟩
  | @map entries own _ ih =>
    intro other equal
    obtain ⟨others, rfl, paired⟩ := same_map.mp equal
    exact same_map.mpr
      ⟨entries, rfl, Keyed.Paired.symmetricAt (fun _ _ _ => rfl) own ih _ paired⟩
  | @entity kind properties own _ ih =>
    intro other equal
    obtain ⟨others, rfl, paired⟩ := same_entity.mp equal
    exact same_entity.mpr
      ⟨properties, rfl, Keyed.Paired.symmetricAt isSignificant_of_same own ih _ paired⟩

/-- Equality of values passes over a value in the middle. -/
theorem transitiveAt (value : Value) : TransitiveAt Same value := by
  induction value using parts_induction with
  | single value simple =>
    intro other last equal again
    rcases (same_single simple).mp equal with
      ⟨rfl, -⟩ | ⟨one, another, rfl, rfl, number⟩ | ⟨one, another, rfl, rfl, stored⟩
    · exact again
    · rw [Same] at again ⊢
      cases last <;> simp only [same, Bool.false_eq_true] at again ⊢
      exact Binary64.same_trans number again
    · rw [Same] at again ⊢
      cases last <;> simp only [same, Bool.false_eq_true] at again ⊢
      exact Bson.transitiveAt one _ _ stored again
  | array items ih =>
    intro other last equal again
    obtain ⟨others, rfl, each⟩ := same_array.mp equal
    obtain ⟨lasts, rfl, next⟩ := same_array.mp again
    exact same_array.mpr ⟨lasts, rfl, TransitiveAt.items ih _ _ each next⟩
  | map entries ih =>
    intro other last equal again
    obtain ⟨others, rfl, paired⟩ := same_map.mp equal
    obtain ⟨lasts, rfl, next⟩ := same_map.mp again
    exact same_map.mpr
      ⟨lasts, rfl, Keyed.Paired.transitiveAt (fun _ _ _ => rfl) ih _ _ paired next⟩
  | entity kind properties ih =>
    intro other last equal again
    obtain ⟨others, rfl, paired⟩ := same_entity.mp equal
    obtain ⟨lasts, rfl, next⟩ := same_entity.mp again
    exact same_entity.mpr
      ⟨lasts, rfl, Keyed.Paired.transitiveAt isSignificant_of_same ih _ _ paired next⟩

/-- What holds NaN is no empty list or map. -/
theorem HoldsNaN.isSignificant {value : Value} (holds : value.HoldsNaN) :
    value.isSignificant = true := by
  cases holds with
  | number | raw | property => rfl
  | item member => simp [Value.isSignificant, isEmptyCollection, List.ne_nil_of_mem member]
  | entry member => simp [Value.isSignificant, isEmptyCollection, List.ne_nil_of_mem member]

/-- A number holds NaN if it is NaN. -/
theorem holdsNaN_double {number : Binary64} :
    (Value.double number).HoldsNaN ↔ number.isNaN = true := by
  constructor
  · intro holds
    cases holds with
    | number is => exact is
  · exact .number

/-- A value kept as stored holds NaN if a number in it is NaN. -/
theorem holdsNaN_other {stored : Bson} :
    (Value.other stored).HoldsNaN ↔ ¬ stored.Each Bson.notNaN := by
  constructor
  · intro holds
    cases holds with
    | raw inside => exact inside
  · exact .raw

/-- A value equals itself exactly where no NaN is in it. -/
theorem NamesApart.same_self_iff {value : Value} (apart : value.NamesApart) :
    value.Same value ↔ ¬ value.HoldsNaN := by
  induction apart with
  | @single value simple raw =>
    cases value with
    | array | map | entity => cases simple
    | double number =>
      rw [holdsNaN_double, Same, same, Binary64.same_self]
      simp
    | other stored =>
      rw [holdsNaN_other, not_not, ← Bson.same_self_iff (raw stored rfl), Same, same, Bson.Same]
    | _ =>
      constructor
      · intro _ holds
        cases holds
      · intro _
        simp [Same, same]
  | @array items _ ih =>
    constructor
    · intro equal holds
      obtain ⟨_, ⟨⟩, each⟩ := same_array.mp equal
      cases holds with
      | item member inside => exact (ih _ member).mp (List.forall₂_same.mp each _ member) inside
    · intro free
      refine same_array.mpr ⟨items, rfl, List.forall₂_same.mpr fun item member => ?_⟩
      exact (ih item member).mpr fun inside => free (.item member inside)
  | @map entries own _ ih =>
    constructor
    · intro equal holds
      obtain ⟨_, ⟨⟩, paired⟩ := same_map.mp equal
      cases holds with
      | entry member inside =>
        exact (ih _ member).mp ((Keyed.paired_self own).mp paired _ member rfl) inside
    · intro free
      refine same_map.mpr ⟨entries, rfl, (Keyed.paired_self own).mpr fun entry member _ => ?_⟩
      exact (ih entry member).mpr fun inside => free (.entry member inside)
  | @entity kind properties own _ ih =>
    constructor
    · intro equal holds
      obtain ⟨_, ⟨⟩, paired⟩ := same_entity.mp equal
      cases holds with
      | property member inside =>
        have itself := (Keyed.paired_self own).mp paired _ member inside.isSignificant
        exact (ih _ member).mp itself inside
    · intro free
      refine same_entity.mpr ⟨properties, rfl, (Keyed.paired_self own).mpr fun entry member _ => ?_⟩
      exact (ih entry member).mpr fun inside => free (.property member inside)

/-- Equality looks past the order of properties, and past those that do not count. -/
theorem same_rearranged {kind : String} {one other : List (String × Value)}
    (oneApart : Keyed.Distinct one) (otherApart : Keyed.Distinct other)
    (moved : (significant one).Perm (significant other)) (another : Value) :
    (Value.entity kind one).same another = (Value.entity kind other).same another ∧
      another.same (.entity kind one) = another.same (.entity kind other) := by
  constructor
  · have left : (Value.entity kind one).Same another ↔ (Value.entity kind other).Same another := by
      rw [same_entity, same_entity]
      exact exists_congr fun _ => and_congr_right fun _ => Keyed.paired_perm_left moved
    exact Bool.eq_iff_iff.mpr left
  · cases another with
    | entity otherKind properties =>
      have paired := @Keyed.paired_perm_right _ _ _ _ _ properties isSignificant_of_same oneApart
        otherApart moved
      have right : (Value.entity otherKind properties).Same (.entity kind one) ↔
          (Value.entity otherKind properties).Same (.entity kind other) := by
        simp only [same_entity, entity.injEq, and_assoc, exists_and_left, exists_eq_left', paired]
      exact Bool.eq_iff_iff.mpr right
    | _ => simp [same]

end Value

/-! ## Entities -/

namespace Entity

/-- No entity, map or stored document in an entity names an entry twice. -/
def NamesApart (entity : Entity) : Prop := (Value.ofEntity entity).NamesApart

/-- A number in an entity is NaN, at whatever depth. -/
def HoldsNaN (entity : Entity) : Prop := (Value.ofEntity entity).HoldsNaN

/-- Equality does not tell two entities apart, on neither side. -/
def Indistinct (one other : Entity) : Prop :=
  ∀ another : Entity, one.same another = other.same another ∧
    another.same one = another.same other

/-- The properties of an entity that keeps names apart have names of their own. -/
theorem NamesApart.properties {entity : Entity} (apart : entity.NamesApart) :
    Keyed.Distinct entity.properties := by
  cases apart with
  | single simple => cases simple
  | entity own => exact own

/-- Entities of one kind with the same properties that count are not told apart. -/
theorem indistinct_of_perm {one other : Entity} (kind : one.kind = other.kind)
    (oneApart : Keyed.Distinct one.properties) (otherApart : Keyed.Distinct other.properties)
    (moved : (significant one.properties).Perm (significant other.properties)) :
    one.Indistinct other := by
  obtain ⟨kind, properties⟩ := one
  obtain rfl := kind
  exact fun another => Value.same_rearranged oneApart otherApart moved (.ofEntity another)

/-- An empty list or map under a new name does not count. -/
theorem significant_set_empty {entity : Entity} {property : String} {value : Value}
    (absent : entity.get? property = none) (empty : value.isEmptyCollection = true) :
    significant (entity.set property value).properties = significant entity.properties := by
  have filled : value.isNull = false := by cases value <;> first | rfl | cases empty
  have unknown : property ∉ Keyed.keys entity.properties := by
    rw [← Keyed.get?_isSome, ← get?, absent]
    simp
  rw [set, filled]
  simp [Keyed.insert_new unknown, significant, empty]

/-- An empty list or map does not count, and may be dropped. -/
theorem significant_remove_empty {entity : Entity} (apart : Keyed.Distinct entity.properties)
    {property : String} {value : Value} (present : entity.get? property = some value)
    (empty : value.isEmptyCollection = true) :
    significant (entity.remove property).properties = significant entity.properties := by
  rw [remove, Keyed.remove, significant, significant, List.filter_filter]
  refine List.filter_congr fun entry member => ?_
  by_cases here : entry.1 = property
  · have found := Keyed.get?_of_mem apart member
    rw [here] at found
    obtain rfl := Option.some.inj (found.symm.trans present)
    simp [empty]
  · simp [here]

end Entity

/-- Equality is an equivalence. It is symmetric and transitive, and a value or an entity equals
itself exactly where no NaN is in it. It does not tell an entity from the same one with its
properties in another order, with an empty list or map under a new name, or without one that it
had. -/
theorem Value.same_equivalence :
    (∀ left right : Value, left.NamesApart → right.NamesApart →
      left.same right = right.same left) ∧
    (∀ left middle right : Value, left.same middle = true → middle.same right = true →
      left.same right = true) ∧
    (∀ value : Value, value.NamesApart → (value.same value = true ↔ ¬ value.HoldsNaN)) ∧
    (∀ left right : Entity, left.NamesApart → right.NamesApart →
      left.same right = right.same left) ∧
    (∀ left middle right : Entity, left.same middle = true → middle.same right = true →
      left.same right = true) ∧
    (∀ entity : Entity, entity.NamesApart → (entity.same entity = true ↔ ¬ entity.HoldsNaN)) ∧
    (∀ entity moved : Entity, entity.NamesApart → moved.kind = entity.kind →
      moved.properties.Perm entity.properties → moved.Indistinct entity) ∧
    ∀ (entity : Entity) (property : String) (value : Value), entity.NamesApart →
      value.isEmptyCollection = true →
      (entity.get? property = none → (entity.set property value).Indistinct entity) ∧
      (entity.get? property = some value → (entity.remove property).Indistinct entity) := by
  have symmetric : ∀ left right : Value, left.NamesApart → right.NamesApart →
      left.same right = right.same left := fun left right leftApart rightApart =>
    Bool.eq_iff_iff.mpr ⟨leftApart.symmetricAt right, rightApart.symmetricAt left⟩
  refine ⟨symmetric, Value.transitiveAt, fun _ apart => apart.same_self_iff,
    fun left right => symmetric (.ofEntity left) (.ofEntity right),
    fun left middle right => Value.transitiveAt (.ofEntity left) (.ofEntity middle) (.ofEntity right),
    fun _ apart => apart.same_self_iff, ?_, ?_⟩
  · intro entity moved apart kind same
    have names : (Keyed.keys moved.properties).Perm (Keyed.keys entity.properties) :=
      same.map Prod.fst
    exact Entity.indistinct_of_perm kind (names.nodup_iff.mpr apart.properties) apart.properties
      (same.filter _)
  · intro entity property value apart empty
    have own := apart.properties
    constructor
    · intro absent
      refine Entity.indistinct_of_perm (Entity.set_kind ..) (Entity.distinct_set own ..) own ?_
      rw [Entity.significant_set_empty absent empty]
    · intro present
      refine Entity.indistinct_of_perm rfl (own.remove property) own ?_
      rw [Entity.significant_remove_empty own present empty]

/-- A shelf equals itself, and one with its sizes in another order and an empty list of tags, on
either side; it stays the same with an empty map of notes. -/
theorem Value.same_equivalence_shelf :
    let three : Value := .double ⟨0x4008000000000000⟩
    let shelf : Entity :=
      ⟨"Shelf", [("sizes", .map [("a", .int32 1), ("b", three)]), ("rule", .other (.regex "k" ""))]⟩
    let moved : Entity := ⟨"Shelf", [("tags", .array []), ("rule", .other (.regex "k" "")),
      ("sizes", .map [("b", three), ("a", .int32 1)])]⟩
    shelf.NamesApart ∧ moved.NamesApart ∧ ¬ shelf.HoldsNaN ∧ shelf.same shelf = true ∧
      shelf.same moved = true ∧ moved.same shelf = true ∧ moved.same moved = true ∧
      (shelf.set "notes" (.map [])).same shelf = true := by
  intro three shelf moved
  obtain ⟨-, -, -, symmetric, transitive, itself, -, collections⟩ := Value.same_equivalence
  have number : Value.NamesApart three := .single rfl nofun
  have count : Value.NamesApart (.int32 1) := .single rfl nofun
  have rule : Value.NamesApart (.other (.regex "k" "")) := by
    refine .single rfl fun stored known => ?_
    obtain rfl := Value.other.inj known
    exact .single rfl
  have shelfApart : shelf.NamesApart := by
    refine .entity (by simp [shelf, Keyed.Distinct, Keyed.keys]) (List.forall_mem_cons.mpr
      ⟨.map (by simp [Keyed.Distinct, Keyed.keys]) ?_, by simpa using rule⟩)
    simpa using ⟨count, number⟩
  have movedApart : moved.NamesApart := by
    refine .entity (by simp [moved, Keyed.Distinct, Keyed.keys]) (List.forall_mem_cons.mpr
      ⟨.array nofun, List.forall_mem_cons.mpr ⟨rule, List.forall_mem_singleton.mpr ?_⟩⟩)
    exact .map (by simp [Keyed.Distinct, Keyed.keys]) (by simpa using ⟨number, count⟩)
  have free : ¬ shelf.HoldsNaN := by
    rintro (_ | _ | _ | _ | ⟨member, inside⟩)
    simp only [shelf, List.mem_cons, List.not_mem_nil, or_false] at member
    rcases member with rfl | rfl
    · cases inside with
      | entry member inside =>
        simp only [List.mem_cons, List.not_mem_nil, or_false] at member
        rcases member with rfl | rfl <;> cases inside
        contradiction
    · cases inside with
      | raw inside => exact inside ((Bson.each_single rfl).mpr trivial)
  have equal : shelf.same moved = true := by
    have numbered : Binary64.same ⟨0x4008000000000000⟩ ⟨0x4008000000000000⟩ = true := by decide
    simp [shelf, moved, three, Entity.same, Value.ofEntity, Value.same, Value.sameProperties,
      Value.sameEntries, Value.isEmptyCollection, Bson.same, Keyed.get?, significant, numbered]
  have alike := (itself shelf shelfApart).mpr free
  have back := (symmetric shelf moved shelfApart movedApart).symm.trans equal
  refine ⟨shelfApart, movedApart, free, alike, equal, back,
    transitive moved shelf moved back equal, ?_⟩
  exact (((collections shelf "notes" (.map []) shelfApart rfl).1 rfl shelf).1).trans alike

end EntityMapping
