import EntityMapping.Text.Digits
/-!
# Integers as decimal text

Reading takes an optional sign and one or more decimal digits and nothing
else; writing gives the fewest digits.
-/

namespace EntityMapping.Integer

/-- The natural number in one or more decimal digits. -/
def readNatural (characters : List Char) : Option Nat :=
  if characters.isEmpty then none else Digits.readDecimal characters

/-- The integer in a signed or unsigned run of decimal digits. -/
def read (characters : List Char) : Option Int :=
  match characters with
  | '-' :: digits => (readNatural digits).map fun value => -(value : Int)
  | '+' :: digits => (readNatural digits).map Int.ofNat
  | digits => (readNatural digits).map Int.ofNat

/-- Decimal digits of a natural number, at most as many as the bound allows. -/
def digitsWithin : Nat → Nat → List Char → List Char
  | 0, _, shown => shown
  | bound + 1, value, shown =>
    let shown := Digits.hexChar (value % 10) :: shown
    if value / 10 = 0 then shown else digitsWithin bound (value / 10) shown

/-- The decimal digits of a natural number without leading zeros. -/
def naturalDigits (value : Nat) : List Char :=
  digitsWithin (value + 1) value []

/-- The decimal text of an integer. -/
def write (value : Int) : String :=
  match value with
  | .ofNat magnitude => String.ofList (naturalDigits magnitude)
  | .negSucc magnitude => String.ofList ('-' :: naturalDigits (magnitude + 1))

end EntityMapping.Integer
