import Mathlib.Data.Rat.Floor
import Mathlib.Tactic.FieldSimp
import Mathlib.Tactic.NormNum
import EntityMapping.Proofs.Value.Conversion
/-!
# From doubles to integers

The fields of a finite double denote a rational number, which is read here as the format defines
it. Narrowing to an integer compares that number with the limits of the target and cuts its
fraction off. The upper limit of sixty-four bits has no double of its own: the limit that is
compared with is one more, so that one number beyond the limit is let through.
-/

namespace EntityMapping

namespace Binary64

/-- The rational number that the fields of a finite double denote: a fraction with a leading one,
or with a leading zero where the exponent field is zero. -/
def exact (number : Binary64) : ℚ :=
  let fraction : ℚ := number.fraction / 2 ^ 52
  let magnitude : ℚ :=
    if number.exponentField = 0 then fraction * (2 : ℚ) ^ (-1022 : ℤ)
    else (1 + fraction) * (2 : ℚ) ^ ((number.exponentField : ℤ) - 1023)
  if number.negative then -magnitude else magnitude

/-- The integer part of a rational number, cut off toward zero. -/
def integerPart (value : ℚ) : ℤ :=
  if 0 ≤ value then ⌊value⌋ else ⌈value⌉

/-- A power of two as a ratio of natural numbers. -/
theorem two_zpow (power : ℤ) :
    (2 : ℚ) ^ power = (Nat.pow 2 power.toNat : ℕ) / (Nat.pow 2 (-power).toNat : ℕ) := by
  simp only [Nat.pow_eq, Nat.cast_pow, Nat.cast_ofNat]
  rcases le_total 0 power with up | down
  · rw [Int.toNat_of_nonpos (by omega : -power ≤ 0), pow_zero, div_one, ← zpow_natCast,
      Int.toNat_of_nonneg up]
  · rw [Int.toNat_of_nonpos down, pow_zero, one_div, ← zpow_natCast,
      Int.toNat_of_nonneg (by omega), zpow_neg, inv_inv]

/-- Without its sign the number is its significand scaled by a power of two. -/
theorem magnitude_eq_scaled (number : Binary64) :
    (if number.exponentField = 0 then (number.fraction / 2 ^ 52 : ℚ) * (2 : ℚ) ^ (-1022 : ℤ)
      else (1 + number.fraction / 2 ^ 52 : ℚ) * (2 : ℚ) ^ ((number.exponentField : ℤ) - 1023)) =
      number.significand * (2 : ℚ) ^ number.power := by
  -- The point of the fraction stands fifty-two places to the left of that of the significand.
  have places (power : ℤ) : (2 : ℚ) ^ (power + 52) = 2 ^ power * 2 ^ 52 := by
    rw [zpow_add₀ two_ne_zero]
    norm_num
  unfold significand power
  split
  · rw [show (-1022 : ℤ) = -1074 + 52 by norm_num, places]
    field_simp
  · rw [show (number.exponentField : ℤ) - 1023 = number.exponentField - 1075 + 52 by omega, places]
    push_cast [Nat.pow_eq]
    field_simp
    norm_num

/-- The number is its numerator by its denominator. -/
theorem exact_eq (number : Binary64) :
    number.exact = (number.numerator : ℚ) / (number.denominator : ℚ) := by
  unfold exact numerator denominator
  dsimp only
  rw [magnitude_eq_scaled, two_zpow]
  split <;> push_cast <;> ring

/-- A double has a positive denominator. -/
theorem denominator_pos (number : Binary64) : 0 < number.denominator :=
  Nat.two_pow_pos _

/-- An integer is compared with the number from below. -/
theorem atLeast_iff (number : Binary64) (bound : ℤ) :
    number.atLeast bound = true ↔ (bound : ℚ) ≤ number.exact := by
  have positive : (0 : ℚ) < number.denominator := by exact_mod_cast number.denominator_pos
  rw [atLeast, decide_eq_true_eq, exact_eq, le_div_iff₀ positive]
  exact_mod_cast Iff.rfl

/-- An integer is compared with the number from above. -/
theorem atMost_iff (number : Binary64) (bound : ℤ) :
    number.atMost bound = true ↔ number.exact ≤ (bound : ℚ) := by
  have positive : (0 : ℚ) < number.denominator := by exact_mod_cast number.denominator_pos
  rw [atMost, decide_eq_true_eq, exact_eq, div_le_iff₀ positive]
  exact_mod_cast Iff.rfl

/-- What is cut off is the fraction of the number. -/
theorem truncate_eq (number : Binary64) : number.truncate = integerPart number.exact := by
  have positive : (0 : ℚ) < number.denominator := by exact_mod_cast number.denominator_pos
  have sign : 0 ≤ number.exact ↔ 0 ≤ number.numerator := by
    rw [exact_eq, le_div_iff₀ positive, zero_mul]
    exact_mod_cast Iff.rfl
  unfold truncate integerPart
  rw [if_congr sign rfl rfl, exact_eq]
  split
  · rename_i up
    rw [Rat.floor_intCast_div_natCast, Int.tdiv_eq_ediv_of_nonneg up]
  · rename_i down
    rw [Rat.ceil_intCast_div_natCast, ← Int.tdiv_eq_ediv_of_nonneg (by omega), Int.neg_tdiv,
      neg_neg]

/-- The integer part is not below an integer that the number is not below. -/
theorem le_integerPart {bound : ℤ} {value : ℚ} (above : (bound : ℚ) ≤ value) :
    bound ≤ integerPart value := by
  unfold integerPart
  split
  · exact Int.le_floor.mpr above
  · exact_mod_cast above.trans (Int.le_ceil value)

/-- The integer part is not above an integer that the number is not above. -/
theorem integerPart_le {bound : ℤ} {value : ℚ} (below : value ≤ (bound : ℚ)) :
    integerPart value ≤ bound := by
  unfold integerPart
  split
  · exact_mod_cast (Int.floor_le value).trans below
  · exact Int.ceil_le.mpr below

/-- The integer part of an integer is the integer. -/
theorem integerPart_intCast (value : ℤ) : integerPart value = value := by
  simp [integerPart]

/-- The integer part of a number below a positive integer is below it as well. -/
theorem integerPart_lt {bound : ℤ} {value : ℚ} (positive : 0 < bound)
    (below : value < (bound : ℚ)) : integerPart value < bound := by
  unfold integerPart
  split
  · exact Int.floor_lt.mpr below
  · rename_i negative
    have ends : ⌈value⌉ ≤ 0 := Int.ceil_le.mpr (by exact_mod_cast (not_le.mp negative).le)
    omega

/-- A number becomes a 32-bit integer where it lies between the limits, and loses its fraction. -/
theorem toInt32?_iff {number : Binary64} {whole : Int32} :
    number.toInt32? = some whole ↔
      (number.isFinite = true ∧ -2 ^ 31 ≤ number.exact ∧ number.exact ≤ 2 ^ 31 - 1) ∧
        whole.toInt = integerPart number.exact := by
  have within : (number.isFinite && number.atLeast (-2147483648) && number.atMost 2147483647) = true
      ↔ number.isFinite = true ∧ -2 ^ 31 ≤ number.exact ∧ number.exact ≤ 2 ^ 31 - 1 := by
    rw [Bool.and_eq_true, Bool.and_eq_true, atLeast_iff, atMost_iff, and_assoc]
    norm_num
  rw [toInt32?, Option.ite_none_right_eq_some, within]
  refine and_congr_right fun ⟨_, low, high⟩ => ?_
  have from_low : -2 ^ 31 ≤ integerPart number.exact := le_integerPart (by exact_mod_cast low)
  have to_high : integerPart number.exact ≤ 2 ^ 31 - 1 := integerPart_le (by exact_mod_cast high)
  rw [Option.some_inj, truncate_eq, ← Int32.toInt_inj, Int32.toInt_ofInt_of_le from_low (by omega),
    eq_comm]

/-- A number becomes a 64-bit integer where it lies between the limits, the upper one included,
and loses its fraction; the upper limit becomes the largest integer below it. -/
theorem toInt64?_iff {number : Binary64} {whole : Int64} :
    number.toInt64? = some whole ↔
      (number.isFinite = true ∧ -2 ^ 63 ≤ number.exact ∧ number.exact ≤ 2 ^ 63) ∧
        whole.toInt = if number.exact = 2 ^ 63 then 2 ^ 63 - 1 else integerPart number.exact := by
  have within : (number.isFinite && number.atLeast (-9223372036854775808) &&
      number.atMost 9223372036854775808) = true ↔
      number.isFinite = true ∧ -2 ^ 63 ≤ number.exact ∧ number.exact ≤ 2 ^ 63 := by
    rw [Bool.and_eq_true, Bool.and_eq_true, atLeast_iff, atMost_iff, and_assoc]
    norm_num
  rw [toInt64?, Option.ite_none_right_eq_some, within]
  refine and_congr_right fun ⟨_, low, high⟩ => ?_
  have from_low : -2 ^ 63 ≤ integerPart number.exact := le_integerPart (by exact_mod_cast low)
  rw [Option.some_inj, truncate_eq, ← Int64.toInt_inj]
  by_cases limit : number.exact = 2 ^ 63
  · have whole_limit : integerPart number.exact = 2 ^ 63 := by
      rw [limit, show (2 : ℚ) ^ 63 = ((2 ^ 63 : ℤ) : ℚ) by norm_num, integerPart_intCast]
    rw [if_pos limit, whole_limit, eq_comm]
    rfl
  · have below : integerPart number.exact < 2 ^ 63 :=
      integerPart_lt (by norm_num) (by exact_mod_cast lt_of_le_of_ne high limit)
    rw [if_neg limit, if_pos (by exact_mod_cast below), Int64.toInt_ofInt_of_le from_low below,
      eq_comm]

end Binary64

open Binary64 Conversion

/-- A double becomes a 32-bit integer exactly where its value lies between the limits, and is cut
off toward zero. It becomes a 64-bit integer where its value lies between the limits, and is cut
off toward zero as well, but for one value: the upper limit itself, which no integer of sixty-four
bits is, becomes the largest of them. -/
theorem convert_double_iff (number : Binary64) (converted : Value) :
    (convert (.scalar .int32) (.double number) = .ok converted ↔
      number.isFinite = true ∧ -2 ^ 31 ≤ number.exact ∧ number.exact ≤ 2 ^ 31 - 1 ∧
        ∃ whole : Int32, converted = .int32 whole ∧ whole.toInt = integerPart number.exact) ∧
    (convert (.scalar .int64) (.double number) = .ok converted ↔
      number.isFinite = true ∧ -2 ^ 63 ≤ number.exact ∧ number.exact ≤ 2 ^ 63 ∧
        ∃ whole : Int64, converted = .int64 whole ∧ whole.toInt =
          if number.exact = 2 ^ 63 then 2 ^ 63 - 1 else integerPart number.exact) := by
  constructor
  · rw [convert_between_iff rfl (by decide), toScalar, toInt32,
      map_some_iff fun _ => toInt32?_iff, and_assoc, and_assoc]
  · rw [convert_between_iff rfl (by decide), toScalar, toInt64,
      map_some_iff fun _ => toInt64?_iff, and_assoc, and_assoc]

/-- The double of two to the power of sixty-three is accepted, and becomes an integer that is not
its integer part. -/
theorem convert_double_beyond :
    convert (.scalar .int64) (.double ⟨0x43e0000000000000⟩) = .ok (.int64 9223372036854775807) ∧
      integerPart (exact ⟨0x43e0000000000000⟩) = 9223372036854775808 ∧
      (9223372036854775807 : Int64).toInt ≠ 9223372036854775808 := by
  have denoted : exact ⟨0x43e0000000000000⟩ = (9223372036854775808 : ℤ) := by
    rw [exact_eq, show numerator ⟨0x43e0000000000000⟩ = 9223372036854775808 by decide +kernel,
      show denominator ⟨0x43e0000000000000⟩ = 1 by decide +kernel, Nat.cast_one, div_one]
  refine ⟨by rfl, ?_, by decide⟩
  rw [denoted, integerPart_intCast]

end EntityMapping
