/-!
# Positional digits

Numbers written with a fixed count of digits in a base, most or least
significant first, and numbers written in decimal. The same digits serve the
hexadecimal text of identifiers and the bytes of words.
-/

namespace EntityMapping.Digits

/-- The lowest digits of a number, least significant first. -/
def little (base : Nat) : Nat → Nat → List Nat
  | 0, _ => []
  | count + 1, value => value % base :: little base count (value / base)

/-- The lowest digits of a number, most significant first. -/
def big (base count value : Nat) : List Nat :=
  (little base count value).reverse

/-- The number that least significant first digits denote. -/
def ofLittle (base : Nat) : List Nat → Nat
  | [] => 0
  | digit :: rest => digit + base * ofLittle base rest

/-- The number that most significant first digits denote. -/
def ofBig (base : Nat) (digits : List Nat) : Nat :=
  ofLittle base digits.reverse

/-- Digits denote the number again, up to the places that were kept. -/
theorem ofLittle_little (base count value : Nat) :
    ofLittle base (little base count value) = value % Nat.pow base count := by
  induction count generalizing value with
  | zero => simp [little, ofLittle, Nat.mod_one]
  | succ count ih =>
    simp only [little, ofLittle, ih]
    change _ = value % (Nat.pow base count * base)
    rw [Nat.mul_comm (Nat.pow base count), Nat.mod_mul]

/-- Most significant first digits denote the number again. -/
theorem ofBig_big (base count value : Nat) :
    ofBig base (big base count value) = value % Nat.pow base count := by
  simp [ofBig, big, ofLittle_little]

/-- The count of digits is the one that was asked for. -/
@[simp] theorem length_little (base count value : Nat) :
    (little base count value).length = count := by
  induction count generalizing value with
  | zero => rfl
  | succ count ih => simp [little, ih]

/-- Digits are smaller than their base. -/
theorem little_lt {base : Nat} (positive : 0 < base) (count value : Nat) :
    ∀ digit ∈ little base count value, digit < base := by
  induction count generalizing value with
  | zero => simp [little]
  | succ count ih =>
    rw [little, List.forall_mem_cons]
    exact ⟨Nat.mod_lt _ positive, ih _⟩

/-- The character of a digit below sixteen, in lower case. -/
def hexChar (digit : Nat) : Char :=
  if digit < 10 then Char.ofNat (48 + digit) else Char.ofNat (87 + digit)

/-- The digit a hexadecimal character stands for, in either case. -/
def hexValue (c : Char) : Option Nat :=
  let code := c.toNat
  if 48 ≤ code ∧ code ≤ 57 then some (code - 48)
  else if 97 ≤ code ∧ code ≤ 102 then some (code - 87)
  else if 65 ≤ code ∧ code ≤ 70 then some (code - 55)
  else none

/-- The digit a decimal character stands for. -/
def decimalValue (c : Char) : Option Nat :=
  let code := c.toNat
  if 48 ≤ code ∧ code ≤ 57 then some (code - 48) else none

/-- Whether a character is one of the ten decimal digits. -/
def isDecimal (c : Char) : Bool :=
  (decimalValue c).isSome

/-- Lower case hexadecimal text with a fixed count of digits. -/
def hexText (count value : Nat) : String :=
  String.ofList ((big 16 count value).map hexChar)

/-- The number in a text of exactly the given count of hexadecimal digits. -/
def readHex (count : Nat) (text : String) : Option Nat :=
  let characters := text.toList
  if characters.length = count then
    (characters.mapM hexValue).map (ofBig 16)
  else none

/-- Bytes in lower case hexadecimal, two digits for each. -/
def writeBytes (bytes : List UInt8) : String :=
  String.ofList (bytes.flatMap fun byte => (big 16 2 byte.toNat).map hexChar)

/-- The bytes whose upper and lower halves are given in turn. -/
def joinHalves : List Nat → List UInt8
  | high :: low :: rest => UInt8.ofNat (16 * high + low) :: joinHalves rest
  | _ => []

/-- The bytes in a hexadecimal text of an even count of digits. -/
def readBytes (text : String) : Option (List UInt8) := do
  let digits ← text.toList.mapM hexValue
  if digits.length % 2 = 0 then some (joinHalves digits) else none

/-- The number that decimal digits denote, none for any other character. -/
def readDecimal (characters : List Char) : Option Nat :=
  (characters.mapM decimalValue).map (ofBig 10)

end EntityMapping.Digits
