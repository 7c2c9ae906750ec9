import EntityMapping.Binary64.Basic
/-!
# The double nearest to a ratio

Rounding a ratio of natural numbers to the nearest double, a half going to the
even neighbour, with gradual underflow and overflow to infinity. The
conversion of integers is the case of denominator one.
-/

namespace EntityMapping.Binary64

/-- The integer nearest to a ratio; a half goes to the even neighbour. -/
def roundHalfEven (numerator denominator : Nat) : Nat :=
  let quotient := numerator / denominator
  let twice := 2 * (numerator % denominator)
  if twice < denominator then quotient
  else if denominator < twice then quotient + 1
  else quotient + quotient % 2

/-- A ratio divided by a power of two, as numerator and denominator. -/
def scaled (numerator denominator : Nat) (power : Int) : Nat × Nat :=
  (numerator * Nat.pow 2 (-power).toNat, denominator * Nat.pow 2 power.toNat)

/-- The power of two at which a ratio has a fifty-three bit integer part, but
never below the smallest power a double has. -/
def powerFor (numerator denominator : Nat) : Int :=
  let estimate : Int := (numerator.log2 : Int) - denominator.log2 - 52
  let (top, bottom) := scaled numerator denominator estimate
  let exact := if top / bottom < Nat.pow 2 52 then estimate - 1 else estimate
  if exact < -1074 then -1074 else exact

/-- The double nearest to a ratio with a positive denominator. -/
def ofRatio (negative : Bool) (numerator denominator : Nat) : Binary64 :=
  if numerator = 0 then zero negative
  else
    let power := powerFor numerator denominator
    let (top, bottom) := scaled numerator denominator power
    let magnitude := (power + 1074).toNat * Nat.pow 2 52 + roundHalfEven top bottom
    if 2047 * Nat.pow 2 52 ≤ magnitude then infinity negative
    else ⟨UInt64.ofNat (if negative then Nat.pow 2 63 + magnitude else magnitude)⟩

/-- The double nearest to an integer. -/
def ofInt (value : Int) : Binary64 :=
  ofRatio (decide (value < 0)) value.natAbs 1

end EntityMapping.Binary64
