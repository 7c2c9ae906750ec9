import EntityMapping.Proofs.Bson.Subvalues
import EntityMapping.Proofs.Value.Alike
import EntityMapping.Proofs.Value.Conversion
import EntityMapping.Proofs.Value.Induction
/-!
# Values that equal themselves

NaN equals no number, so a value that holds NaN does not equal itself. A stored value
without NaN does, and so does what it is converted to, unless a text in it is read as
NaN.
-/

namespace EntityMapping

/-! ## Numbers -/

namespace Binary64

/-- A number equals itself unless it is NaN. -/
theorem same_self (number : Binary64) : number.same number = !number.isNaN := by
  simp [same]

/-- Bits below those of infinity, with the sign or without, are those of a number. -/
theorem isNaN_of_lt {magnitude bits : Nat} (finite : magnitude < 2047 * Nat.pow 2 52)
    (known : bits = magnitude ∨ bits = Nat.pow 2 63 + magnitude) :
    isNaN ⟨UInt64.ofNat bits⟩ = false := by
  have exponent : exponentField ⟨UInt64.ofNat bits⟩ ≠ 2047 := by
    simp only [exponentField, UInt64.toNat_ofNat', Nat.pow_eq, Nat.reducePow] at finite known ⊢
    omega
  simp [isNaN, exponent]

/-- The double nearest to a ratio is a number. -/
theorem isNaN_ofRatio (negative : Bool) (numerator denominator : Nat) :
    (ofRatio negative numerator denominator).isNaN = false := by
  unfold ofRatio
  split
  · cases negative <;> decide
  dsimp only
  generalize (powerFor numerator denominator + 1074).toNat * Nat.pow 2 52 + _ = magnitude
  split
  · cases negative <;> decide
  · rename_i finite
    cases negative
    · exact isNaN_of_lt (Nat.lt_of_not_le finite) (.inl rfl)
    · exact isNaN_of_lt (Nat.lt_of_not_le finite) (.inr rfl)

/-- The double nearest to an integer is a number. -/
theorem isNaN_ofInt (value : Int) : (ofInt value).isNaN = false :=
  isNaN_ofRatio ..

end Binary64

/-! ## Stored values -/

namespace Bson

/-- A stored value is not NaN. -/
def notNaN : Bson → Prop
  | .double number => number.isNaN = false
  | _ => True

/-- A stored value is not a text that is read as NaN. -/
def spellsNoNaN : Bson → Prop
  | .string text => ∀ number, Binary64.read (Conversion.trimmed text) = some number →
    number.isNaN = false
  | _ => True

/-- Arrays of items that equal themselves equal themselves. -/
theorem sameItems_self {items : List Bson} (each : ∀ item ∈ items, item.same item = true) :
    sameItems items items = true := by
  induction items with
  | nil => rw [sameItems]
  | cons item rest ih =>
    obtain ⟨first, others⟩ := List.forall_mem_cons.mp each
    rw [sameItems, first, ih others, Bool.and_self]

/-- Every entry on the left is looked up on the right. -/
theorem sameEntries_iff {left right : List (String × Bson)} :
    sameEntries left right = true ↔ ∀ entry ∈ left, ∃ other,
      Keyed.get? entry.1 right = some other ∧ entry.2.same other = true := by
  induction left with
  | nil => simp [sameEntries]
  | cons entry rest ih =>
    obtain ⟨key, value⟩ := entry
    rw [sameEntries, Bool.and_eq_true, ih, List.forall_mem_cons]
    apply and_congr_left
    intro _
    cases Keyed.get? key right <;> simp

/-- Documents of entries that equal themselves equal themselves. -/
theorem sameEntries_self {entries : List (String × Bson)} (apart : Keyed.Distinct entries)
    (each : ∀ entry ∈ entries, entry.2.same entry.2 = true) :
    sameEntries entries entries = true :=
  sameEntries_iff.mpr fun entry member =>
    ⟨entry.2, Keyed.get?_of_mem apart member, each entry member⟩

/-- A stored value without NaN equals itself. -/
theorem same_self {stored : Bson} (apart : stored.Apart) (free : stored.Each notNaN) :
    stored.same stored = true := by
  induction stored using Bson.parts_induction with
  | single value simple =>
    rw [each_single simple] at free
    cases value <;> simp_all [same, notNaN, Binary64.same_self, isSingle]
  | array items ih =>
    rw [same]
    exact sameItems_self fun item member =>
      ih item member (apart_array.mp apart item member) ((each_array.mp free).2 item member)
  | document entries ih =>
    obtain ⟨own, inside⟩ := each_document.mp apart
    rw [same, decide_eq_true rfl, Bool.true_and]
    exact sameEntries_self own fun entry member =>
      ih entry member (inside entry member) ((each_document.mp free).2 entry member)
  | scopedCode source scope ih =>
    obtain ⟨own, inside⟩ := each_document.mp (each_scopedCode.mp apart).2
    have numbers := (each_document.mp (each_scopedCode.mp free).2).2
    rw [same, decide_eq_true rfl, decide_eq_true rfl, Bool.true_and, Bool.true_and]
    exact sameEntries_self own fun entry member =>
      ih entry member (inside entry member) (numbers entry member)

end Bson

/-! ## Values -/

namespace Value

/-- A value without NaN at any depth, and without a text that is read as NaN. Entities in it have
been read already; they only have to equal themselves, property by property. -/
inductive Definite : Value → Prop where
  /-- A value without parts equals itself, and is not read as NaN. -/
  | single {value : Value} (simple : value.isSingle = true) (alike : value.Alike value)
    (spelled : ∀ text, value = .string text → (Bson.string text).spellsNoNaN) : Definite value
  /-- A list of definite items. -/
  | array {items : List Value} (each : ∀ item ∈ items, Definite item) : Definite (.array items)
  /-- A map of definite values. -/
  | map {entries : List (String × Value)} (apart : Keyed.Distinct entries)
    (each : ∀ entry ∈ entries, Definite entry.2) : Definite (.map entries)
  /-- An entity of properties that equal themselves. -/
  | entity {kind : String} {properties : List (String × Value)}
    (apart : Keyed.Distinct properties) (each : ∀ entry ∈ properties, entry.2.Alike entry.2) :
    Definite (.entity kind properties)

/-- A list of items that equal themselves equals itself. -/
theorem alike_array {items : List Value} (each : ∀ item ∈ items, item.Alike item) :
    (Value.array items).Alike (.array items) :=
  .array (List.forall₂_same.mpr each)

/-- A map of values that equal themselves equals itself. -/
theorem alike_map {entries : List (String × Value)} (apart : Keyed.Distinct entries)
    (each : ∀ entry ∈ entries, entry.2.Alike entry.2) :
    (Value.map entries).Alike (.map entries) :=
  .map apart (List.forall₂_same.mpr fun entry member => ⟨rfl, each entry member⟩)

/-- An entity of properties that equal themselves equals itself. -/
theorem alike_entity {kind : String} {properties : List (String × Value)}
    (apart : Keyed.Distinct properties) (each : ∀ entry ∈ properties, entry.2.Alike entry.2) :
    (Value.entity kind properties).Alike (.entity kind properties) := by
  have covered : Covered properties properties := fun name value found _ =>
    ⟨value, found, each (name, value) (Keyed.mem_of_get? found)⟩
  exact .entity kind apart apart covered covered

/-- A number that is not NaN equals itself. -/
theorem alike_double {number : Binary64} (numbered : number.isNaN = false) :
    (Value.double number).Alike (.double number) := by
  simp [Alike, same, Binary64.same_self, numbered]

namespace Definite

variable {value converted : Value}

/-- A definite value equals itself. -/
theorem alike (definite : value.Definite) : value.Alike value := by
  induction definite with
  | single _ alike => exact alike
  | array _ ih => exact alike_array ih
  | map apart _ ih => exact alike_map apart ih
  | entity apart each => exact alike_entity apart each

/-- What is stored without NaN, and without a text that is read as NaN, is definite. -/
theorem ofBson {stored : Bson} (apart : stored.Apart) (free : stored.Each Bson.notNaN)
    (spelled : stored.Each Bson.spellsNoNaN) : (Value.ofBson stored).Definite := by
  induction stored using Bson.parts_induction with
  | single part simple =>
    have numbered := (Bson.each_single simple).mp free
    have text := (Bson.each_single simple).mp spelled
    cases part with
    | array | document | scopedCode => cases simple
    | string content =>
      rw [Value.ofBson]
      refine .single rfl (by simp [Alike, same]) fun other known => ?_
      obtain rfl := Value.string.inj known
      exact text
    | double number =>
      rw [Value.ofBson]
      exact .single rfl (alike_double numbered) fun _ known => by cases known
    | _ =>
      rw [Value.ofBson]
      exact .single rfl (by simp [Alike, same, Bson.same]) fun _ known => by cases known
  | array items ih =>
    rw [Value.ofBson, ofItems_eq]
    refine .array fun item member => ?_
    obtain ⟨stored, known, rfl⟩ := List.mem_map.mp member
    exact ih stored known (Bson.apart_array.mp apart stored known)
      ((Bson.each_array.mp free).2 stored known) ((Bson.each_array.mp spelled).2 stored known)
  | document entries ih =>
    obtain ⟨own, inside⟩ := Bson.each_document.mp apart
    rw [Value.ofBson, ofEntries_eq]
    refine .map (own.map Value.ofBson) fun entry member => ?_
    obtain ⟨stored, known, rfl⟩ := List.mem_map.mp member
    exact ih stored known (inside stored known) ((Bson.each_document.mp free).2 stored known)
      ((Bson.each_document.mp spelled).2 stored known)
  | scopedCode source scope =>
    have reflexive := Bson.same_self apart free
    rw [Value.ofBson]
    refine .single rfl ?_ fun text known => by cases known
    exact ⟨by rw [same]; exact reflexive, by rw [same]; exact reflexive⟩

/-- What a definite value is converted to equals itself. -/
theorem convert {type : FieldType} (definite : value.Definite)
    (done : EntityMapping.convert type value = .ok converted) : converted.Alike converted := by
  refine convert_induction (motive := fun _ value converted =>
    value.Definite → converted.Alike converted)
    ?null ?any ?same ?scalar ?entity ?items ?single ?entries done definite
  case null => exact fun _ definite => definite.alike
  case any => exact fun _ definite => definite.alike
  case same => exact fun _ _ _ definite => definite.alike
  case entity => exact fun _ _ definite => definite.alike
  case scalar =>
    intro type value converted made definite
    cases type with
    | double =>
      obtain ⟨number, read, rfl⟩ := Option.map_eq_some_iff.mp made
      refine alike_double ?_
      cases value with
      | int32 count =>
        obtain rfl := Option.some.inj read
        exact Binary64.isNaN_ofInt _
      | int64 count =>
        obtain rfl := Option.some.inj read
        exact Binary64.isNaN_ofInt _
      | string text =>
        cases definite with
        | single _ _ spelled => exact spelled text rfl number read
      | _ => cases read
    | _ =>
      obtain ⟨found, -, rfl⟩ := Option.map_eq_some_iff.mp made
      simp [Alike, same]
  case items =>
    intro element items results each definite
    cases definite with
    | single simple => cases simple
    | array items =>
      refine alike_array fun result member => ?_
      obtain ⟨item, known, -, reads⟩ := exists_of_mem_left (forall₂_mem each).flip result member
      exact reads (items item known)
  case single =>
    intro element value item alone made definite
    exact alike_array (List.forall_mem_singleton.mpr (made definite))
  case entries =>
    intro element entries results each definite
    cases definite with
    | single simple => cases simple
    | map apart inside =>
      refine alike_map ?_ fun result member => ?_
      · have names := @keys_of_forall₂ _ _ (fun value converted : Value =>
          value.Definite → converted.Alike converted) _ _ each
        rw [Keyed.Distinct, ← names]
        exact apart
      · obtain ⟨entry, known, -, -, reads⟩ :=
          exists_of_mem_left (forall₂_mem each).flip result member
        exact reads (inside entry known)

end Definite

end Value

end EntityMapping
