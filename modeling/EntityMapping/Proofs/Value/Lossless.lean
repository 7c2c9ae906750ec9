import Mathlib.Tactic.NormNum
import EntityMapping.Proofs.Text.Numerals
import EntityMapping.Proofs.Value.Declared
/-!
# Conversions that can be undone

Between some scalar types conversion loses nothing: every value of the one type has a counterpart
in the other, and converting the counterpart gives the value back. Integers narrow exactly where
they fit, and a text stands for the integer that it spells wherever the target has it.
-/

namespace EntityMapping

/-- Scalar types of which the first loses nothing in the second. -/
inductive ScalarType.Embeds : ScalarType → ScalarType → Prop where
  | boolInt32 : Embeds .bool .int32
  | boolInt64 : Embeds .bool .int64
  | boolString : Embeds .bool .string
  | int32Int64 : Embeds .int32 .int64
  | int32String : Embeds .int32 .string
  | int64String : Embeds .int64 .string
  | int64DateTime : Embeds .int64 .dateTime
  | dateTimeInt64 : Embeds .dateTime .int64
  | objectIdString : Embeds .objectId .string

open Conversion

/-- A 32-bit integer keeps its value as a 64-bit one. -/
theorem toInt_widened (value : Int32) : (Int64.ofInt value.toInt).toInt = value.toInt := by
  have low := value.le_toInt
  have high := value.toInt_lt
  exact Int64.toInt_ofInt_of_le (by omega) (by omega)

/-- What fits thirty-two bits lies between their limits. -/
theorem fitsInt32_iff {value : Int} : fitsInt32 value = true ↔ -2 ^ 31 ≤ value ∧ value < 2 ^ 31 := by
  rw [fitsInt32, Bool.and_eq_true, decide_eq_true_eq, decide_eq_true_eq]
  norm_num

/-- What fits sixty-four bits lies between their limits. -/
theorem fitsInt64_iff {value : Int} : fitsInt64 value = true ↔ -2 ^ 63 ≤ value ∧ value < 2 ^ 63 := by
  rw [fitsInt64, Bool.and_eq_true, decide_eq_true_eq, decide_eq_true_eq]
  norm_num

/-- A 32-bit integer fits thirty-two bits. -/
theorem fitsInt32_toInt (value : Int32) : fitsInt32 value.toInt = true :=
  fitsInt32_iff.mpr ⟨value.le_toInt, value.toInt_lt⟩

/-- A 64-bit integer fits sixty-four bits. -/
theorem fitsInt64_toInt (value : Int64) : fitsInt64 value.toInt = true :=
  fitsInt64_iff.mpr ⟨value.le_toInt, value.toInt_lt⟩

/-- A text that spells an integer is read as a 32-bit integer where the integer fits. -/
theorem readInt32_eq {text : String} {value : Int} (spells : Integer.Spells text value) :
    readInt32 text = if fitsInt32 value then some (Int32.ofInt value) else none := by
  rw [readInt32, trimmed, Integer.read_trim spells]

/-- A text that spells an integer is read as a 64-bit integer where the integer fits. -/
theorem readInt64_eq {text : String} {value : Int} (spells : Integer.Spells text value) :
    readInt64 text = if fitsInt64 value then some (Int64.ofInt value) else none := by
  rw [readInt64, trimmed, Integer.read_trim spells]

/-- What is made of a value of the first type is made into the value again. -/
theorem toScalar_back {source target : ScalarType} (embeds : source.Embeds target) {value : Value}
    (shows : value.runtimeType = some (.scalar source)) :
    ∃ other, toScalar target value = some other ∧ toScalar source other = some value := by
  cases embeds <;> cases value <;> cases shows
  case boolInt32 value | boolInt64 value | boolString value =>
    exact ⟨_, rfl, by cases value <;> rfl⟩
  case int64DateTime | dateTimeInt64 => exact ⟨_, rfl, rfl⟩
  case int32Int64 value =>
    refine ⟨_, rfl, ?_⟩
    rw [toScalar, toInt32, toInt_widened, if_pos (fitsInt32_toInt value), Int32.ofInt_toInt]
    rfl
  case int32String value =>
    refine ⟨_, rfl, ?_⟩
    rw [toScalar, toInt32, readInt32_eq (Integer.spells_write _), if_pos (fitsInt32_toInt value),
      Int32.ofInt_toInt]
    rfl
  case int64String value =>
    refine ⟨_, rfl, ?_⟩
    rw [toScalar, toInt64, readInt64_eq (Integer.spells_write _), if_pos (fitsInt64_toInt value),
      Int64.ofInt_toInt]
    rfl
  case objectIdString id =>
    refine ⟨_, rfl, ?_⟩
    rw [toScalar, toObjectId, id.read_text]
    rfl

/-- A type does not embed in itself. -/
theorem ScalarType.Embeds.ne {source target : ScalarType} (embeds : source.Embeds target) :
    source ≠ target := by
  cases embeds <;> decide

/-- Every value of the first type has a counterpart in the second, and is what the counterpart
converts to. -/
theorem convert_back {source target : ScalarType} (embeds : source.Embeds target) {value : Value}
    (isOf : value.IsOf (.scalar source)) :
    ∃ other, other.IsOf (.scalar target) ∧ convert (.scalar target) value = .ok other ∧
      convert (.scalar source) other = .ok value := by
  rcases eq_or_ne value .null with rfl | filled
  · exact ⟨.null, .null _, convert_null _, convert_null _⟩
  have shows : value.runtimeType = some (.scalar source) := by
    cases isOf with
    | null => exact absurd rfl filled
    | _ => rfl
  obtain ⟨other, made, back⟩ := toScalar_back embeds shows
  have form := runtimeType_toScalar made
  refine ⟨other, .of_runtimeType form, ?_, ?_⟩
  · exact (convert_between_iff shows embeds.ne).mpr made
  · exact (convert_between_iff form embeds.ne.symm).mpr back

/-- A number that is narrowed to thirty-two bits lies between their limits and keeps its value. -/
theorem fitting_int32_iff {number : Int} {kept : Int32} :
    (if fitsInt32 number then some (Int32.ofInt number) else none) = some kept ↔
      (-2 ^ 31 ≤ number ∧ number < 2 ^ 31) ∧ kept.toInt = number := by
  rw [Option.ite_none_right_eq_some, fitsInt32_iff]
  refine and_congr_right fun ⟨low, high⟩ => ?_
  rw [Option.some_inj, eq_comm, ← Int32.toInt_inj, Int32.toInt_ofInt_of_le low high]

/-- A number that is narrowed to sixty-four bits lies between their limits and keeps its value. -/
theorem fitting_int64_iff {number : Int} {kept : Int64} :
    (if fitsInt64 number then some (Int64.ofInt number) else none) = some kept ↔
      (-2 ^ 63 ≤ number ∧ number < 2 ^ 63) ∧ kept.toInt = number := by
  rw [Option.ite_none_right_eq_some, fitsInt64_iff]
  refine and_congr_right fun ⟨low, high⟩ => ?_
  rw [Option.some_inj, eq_comm, ← Int64.toInt_inj, Int64.toInt_ofInt_of_le low high]

/-- Between the scalar types that embed in each other conversion is undone by conversion. A 64-bit
integer becomes a 32-bit one exactly where its value has thirty-two bits, and keeps the value. A
text that spells an integer becomes the integer exactly where the target has it. -/
theorem conversion_undone :
    (∀ source target, ScalarType.Embeds source target → ∀ value : Value,
      value.IsOf (.scalar source) → ∃ other, other.IsOf (.scalar target) ∧
        convert (.scalar target) value = .ok other ∧
        convert (.scalar source) other = .ok value) ∧
    (∀ (number : Int64) (converted : Value),
      convert (.scalar .int32) (.int64 number) = .ok converted ↔
        -2 ^ 31 ≤ number.toInt ∧ number.toInt < 2 ^ 31 ∧
          ∃ kept : Int32, converted = .int32 kept ∧ kept.toInt = number.toInt) ∧
    ∀ (text : String) (number : Int), Integer.Spells text number → ∀ converted : Value,
      (convert (.scalar .int32) (.string text) = .ok converted ↔
        -2 ^ 31 ≤ number ∧ number < 2 ^ 31 ∧
          ∃ kept : Int32, converted = .int32 kept ∧ kept.toInt = number) ∧
      (convert (.scalar .int64) (.string text) = .ok converted ↔
        -2 ^ 63 ≤ number ∧ number < 2 ^ 63 ∧
          ∃ kept : Int64, converted = .int64 kept ∧ kept.toInt = number) := by
  have narrowed (number : Int) (converted : Value) :
      (if fitsInt32 number then some (Int32.ofInt number) else none).map Value.int32 =
        some converted ↔ -2 ^ 31 ≤ number ∧ number < 2 ^ 31 ∧
          ∃ kept : Int32, converted = .int32 kept ∧ kept.toInt = number := by
    rw [map_some_iff fun _ => fitting_int32_iff, and_assoc]
  refine ⟨fun source target embeds value => convert_back embeds, fun number converted => ?_,
    fun text number spells converted => ⟨?_, ?_⟩⟩
  · rw [convert_between_iff rfl (by decide)]
    exact narrowed number.toInt converted
  · rw [convert_between_iff rfl (by decide), toScalar, toInt32, readInt32_eq spells, narrowed]
  · rw [convert_between_iff rfl (by decide), toScalar, toInt64, readInt64_eq spells,
      map_some_iff fun _ => fitting_int64_iff, and_assoc]

/-- The least integer of sixty-four bits goes through its text and back; spelled with white space
and zeros it is read as such, and not as an integer of thirty-two bits. -/
theorem conversion_undone_least :
    ScalarType.Embeds .int64 .string ∧
    Value.IsOf (.int64 (-9223372036854775808)) (.scalar .int64) ∧
    (∃ other, Value.IsOf other (.scalar .string) ∧
      convert (.scalar .string) (.int64 (-9223372036854775808)) = .ok other ∧
      convert (.scalar .int64) other = .ok (.int64 (-9223372036854775808))) ∧
    Integer.Spells "\t-009223372036854775808 " (-9223372036854775808) ∧
    convert (.scalar .int64) (.string "\t-009223372036854775808 ") =
      .ok (.int64 (-9223372036854775808)) ∧
    ∀ converted, convert (.scalar .int32) (.string "\t-009223372036854775808 ") ≠
      .ok converted := by
  obtain ⟨back, -, spelled⟩ := conversion_undone
  have spells : Integer.Spells "\t-009223372036854775808 " (-9223372036854775808) :=
    ⟨['\t'], _, [' '], by rfl, List.forall_mem_singleton.mpr rfl,
      List.forall_mem_singleton.mpr rfl, .minus 2 9223372036854775808⟩
  refine ⟨.int64String, .int64 _, back _ _ .int64String _ (.int64 _), spells, ?_, ?_⟩
  · exact (spelled _ _ spells _).2.mpr ⟨by norm_num, by norm_num, _, rfl, by decide⟩
  · intro converted made
    obtain ⟨low, -⟩ := (spelled _ _ spells _).1.mp made
    norm_num at low

end EntityMapping
