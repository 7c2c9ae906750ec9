import EntityMapping.Binary64.Basic
import EntityMapping.Text.Integer
/-!
# The shortest decimal text of a double

The text has the fewest digits that still read back as the same number; of two
candidates with that many digits the nearer one is taken, and the larger one
if both are equally near. The digits are always written positionally, without
an exponent and without a fraction of zeros.
-/

namespace EntityMapping.Binary64

/-- A decimal number: digits times a power of ten. -/
structure Decimal where
  /-- The digits read as one natural number. -/
  digits : Nat
  /-- The power of ten that scales them. -/
  power : Int
  deriving DecidableEq

/-- Compare digits times a power of ten with an integer times a power of two. -/
def compareScaled (digits : Nat) (ten : Int) (integer : Nat) (two : Int) : Ordering :=
  compare (digits * Nat.pow 10 ten.toNat * Nat.pow 2 (-two).toNat)
    (integer * Nat.pow 2 two.toNat * Nat.pow 10 (-ten).toNat)

/-- The reals that round to a positive double, as bounds in quarters of its last
place; the bounds belong to it when the significand is even. -/
structure Interval where
  /-- The lower bound. -/
  low : Nat
  /-- The upper bound. -/
  high : Nat
  /-- The power of two of one quarter. -/
  power : Int
  /-- Whether the bounds themselves round to the number. -/
  closed : Bool

/-- The interval of reals that round to a positive finite number. -/
def interval (value : Binary64) : Interval :=
  let m := value.significand
  let narrow := decide (value.fraction = 0) && decide (1 < value.exponentField)
  { low := if narrow then 4 * m - 1 else 4 * m - 2
    high := 4 * m + 2
    power := value.power - 2
    closed := decide (m % 2 = 0) }

/-- Whether a decimal lies in an interval. -/
def Interval.holds (range : Interval) (candidate : Decimal) : Bool :=
  let below := compareScaled candidate.digits candidate.power range.low range.power
  let above := compareScaled candidate.digits candidate.power range.high range.power
  (below == .gt || (range.closed && below == .eq)) &&
    (above == .lt || (range.closed && above == .eq))

/-- The power of ten of the leading digit of a positive finite number. -/
def leadingPower (value : Binary64) : Int :=
  let guess : Int := ((value.significand.log2 : Int) + value.power) * 30103 / 100000
  if compareScaled 1 (guess + 1) value.significand value.power != .gt then guess + 1
  else if compareScaled 1 guess value.significand value.power == .gt then guess - 1
  else guess

/-- The decimal on a grid of one power of ten that reads back, if there is one:
one of the two neighbours of the number on that grid. -/
def onGrid (value : Binary64) (power : Int) : Option Decimal :=
  let top := value.significand * Nat.pow 2 value.power.toNat * Nat.pow 10 (-power).toNat
  let bottom := Nat.pow 2 (-value.power).toNat * Nat.pow 10 power.toNat
  let lower : Decimal := ⟨top / bottom, power⟩
  let upper : Decimal := ⟨top / bottom + 1, power⟩
  let range := value.interval
  match range.holds lower, range.holds upper with
  | true, true => if 2 * (top % bottom) < bottom then some lower else some upper
  | true, false => some lower
  | false, true => some upper
  | false, false => none

/-- The first grid, from coarse to fine, that holds a decimal reading back. -/
def shortestFrom (value : Binary64) : Nat → Int → Decimal
  | 0, power => ⟨0, power⟩
  | steps + 1, power =>
    match value.onGrid power with
    | some found => found
    | none => shortestFrom value steps (power - 1)

/-- The shortest decimal of a positive finite number; seventeen digits always
suffice. -/
def shortest (value : Binary64) : Decimal :=
  value.shortestFrom 18 value.leadingPower

/-- The digits of a decimal set out around the decimal point. -/
def Decimal.positional (decimal : Decimal) : List Char :=
  let digits := Integer.naturalDigits decimal.digits
  if 0 ≤ decimal.power then
    digits ++ List.replicate decimal.power.toNat '0'
  else
    let places := (-decimal.power).toNat
    let padded := List.replicate (places + 1 - digits.length) '0' ++ digits
    let whole := padded.take (padded.length - places)
    let part := (padded.drop (padded.length - places)).reverse.dropWhile (· == '0')
    if part.isEmpty then whole else whole ++ '.' :: part.reverse

/-- The decimal text of a double. -/
def text (value : Binary64) : String :=
  if value.isNaN then "NaN"
  else
    let sign := if value.negative then ['-'] else []
    let magnitude :=
      if !value.isFinite then ['i', 'n', 'f']
      else if value.isZero then ['0']
      else value.shortest.positional
    String.ofList (sign ++ magnitude)

end EntityMapping.Binary64
