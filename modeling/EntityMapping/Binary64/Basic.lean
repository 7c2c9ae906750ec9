/-!
# Double precision numbers as bits

A double is kept as its sixty-four bits. Its exact value is a ratio of
integers read off the fields, so comparisons with integers and truncation are
integer arithmetic and nothing depends on the machine's floating point unit.
-/

namespace EntityMapping

/-- A double precision number, told apart from others by its bits. -/
structure Binary64 where
  /-- Sign, exponent field and fraction field, from the top. -/
  bits : UInt64
  deriving DecidableEq

namespace Binary64

/-- Whether the sign bit is set. -/
def negative (value : Binary64) : Bool :=
  decide (Nat.pow 2 63 ≤ value.bits.toNat)

/-- The eleven bits of the exponent field. -/
def exponentField (value : Binary64) : Nat :=
  value.bits.toNat / Nat.pow 2 52 % 2048

/-- The fifty-two bits of the fraction field. -/
def fraction (value : Binary64) : Nat :=
  value.bits.toNat % Nat.pow 2 52

/-- Whether the number is neither infinite nor a NaN. -/
def isFinite (value : Binary64) : Bool :=
  decide (value.exponentField ≠ 2047)

/-- Whether the bits stand for no number at all. -/
def isNaN (value : Binary64) : Bool :=
  decide (value.exponentField = 2047) && decide (value.fraction ≠ 0)

/-- Whether the number is zero, of either sign. -/
def isZero (value : Binary64) : Bool :=
  decide (value.exponentField = 0) && decide (value.fraction = 0)

/-- The integer that the power of two scales; the top bit is implied unless the
exponent field is zero. -/
def significand (value : Binary64) : Nat :=
  if value.exponentField = 0 then value.fraction else Nat.pow 2 52 + value.fraction

/-- The power of two that scales the significand. -/
def power (value : Binary64) : Int :=
  if value.exponentField = 0 then -1074 else (value.exponentField : Int) - 1075

/-- The numerator of the exact value of a finite number, sign included. -/
def numerator (value : Binary64) : Int :=
  let magnitude : Int := ((value.significand * Nat.pow 2 value.power.toNat : Nat) : Int)
  if value.negative then -magnitude else magnitude

/-- The denominator of the exact value of a finite number. -/
def denominator (value : Binary64) : Nat :=
  Nat.pow 2 (-value.power).toNat

/-- Numeric equality: no NaN equals anything, and the two zeros are equal. -/
def same (left right : Binary64) : Bool :=
  !left.isNaN && !right.isNaN && (decide (left = right) || (left.isZero && right.isZero))

/-- Whether an integer is at most a finite number. -/
def atLeast (value : Binary64) (bound : Int) : Bool :=
  decide (bound * value.denominator ≤ value.numerator)

/-- Whether a finite number is at most an integer. -/
def atMost (value : Binary64) (bound : Int) : Bool :=
  decide (value.numerator ≤ bound * value.denominator)

/-- The integer part of a finite number, cut off toward zero. -/
def truncate (value : Binary64) : Int :=
  value.numerator.tdiv value.denominator

/-- The NaN with a clear sign and only the top fraction bit set. -/
def nan : Binary64 := ⟨0x7ff8000000000000⟩

/-- The NaN of a sign with only the top fraction bit set. -/
def signedNaN (negative : Bool) : Binary64 :=
  if negative then ⟨0xfff8000000000000⟩ else nan

/-- The infinity of a sign. -/
def infinity (negative : Bool) : Binary64 :=
  if negative then ⟨0xfff0000000000000⟩ else ⟨0x7ff0000000000000⟩

/-- The zero of a sign. -/
def zero (negative : Bool) : Binary64 :=
  if negative then ⟨0x8000000000000000⟩ else ⟨0⟩

/-- Numeric equality does not depend on the order of its sides. -/
theorem same_comm (left right : Binary64) : left.same right = right.same left := by
  unfold same
  by_cases h : left = right
  · subst h
    rfl
  · have other : right ≠ left := fun e => h e.symm
    simp [h, other, Bool.and_comm, Bool.and_assoc]

end Binary64

end EntityMapping
