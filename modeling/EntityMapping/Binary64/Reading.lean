import EntityMapping.Binary64.Rounding
import EntityMapping.Text.Digits
/-!
# Reading a double from text

A text is an optional sign followed by `inf`, `infinity` or `nan` in any case,
or by decimal digits with an optional point and an optional exponent; at least
one digit stands before or after the point. The result is the double nearest
to the number that is written, where an exponent takes no further digits once
it has reached 65536.
-/

namespace EntityMapping.Binary64

/-- The lower case form of an ASCII letter. -/
def lowerLetter (c : Char) : Char :=
  if 65 ≤ c.toNat ∧ c.toNat ≤ 90 then Char.ofNat (c.toNat + 32) else c

/-- An exponent with one more digit, which no longer counts once the exponent has
reached 65536. -/
def withDigit (exponent digit : Nat) : Nat :=
  if exponent < 65536 then 10 * exponent + digit else exponent

/-- The exponent after its mark: an optional sign and one or more digits. -/
def readExponent (characters : List Char) : Option Int :=
  let magnitude (digits : List Char) : Option Int :=
    if digits.isEmpty then none
    else (digits.mapM Digits.decimalValue).map fun values => Int.ofNat (values.foldl withDigit 0)
  match characters with
  | '-' :: digits => (magnitude digits).map fun value => -value
  | '+' :: digits => magnitude digits
  | digits => magnitude digits

/-- The double nearest to digits times a power of ten. Powers far outside the
range are settled by the count of digits alone. -/
def ofDecimal (negative : Bool) (digits : Nat) (power : Int) (count : Nat) : Binary64 :=
  if digits = 0 then zero negative
  else if 400 < power then infinity negative
  else if power + count < -400 then zero negative
  else ofRatio negative (digits * Nat.pow 10 power.toNat)
    (Nat.pow 10 (-power).toNat)

/-- The number in unsigned decimal text with optional point and exponent. -/
def readNumber (negative : Bool) (characters : List Char) : Option Binary64 :=
  let whole := characters.takeWhile Digits.isDecimal
  let afterWhole := characters.dropWhile Digits.isDecimal
  let (part, afterPart) :=
    match afterWhole with
    | '.' :: rest => (rest.takeWhile Digits.isDecimal, rest.dropWhile Digits.isDecimal)
    | rest => ([], rest)
  if whole.isEmpty && part.isEmpty then none
  else
    let exponent : Option Int :=
      match afterPart with
      | [] => some 0
      | mark :: rest => if lowerLetter mark = 'e' then readExponent rest else none
    match exponent, Digits.readDecimal (whole ++ part) with
    | some exponent, some digits =>
      some (ofDecimal negative digits (exponent - part.length) (whole ++ part).length)
    | _, _ => none

/-- The double in an unsigned text, one of the three words or a number. -/
def readUnsigned (negative : Bool) (characters : List Char) : Option Binary64 :=
  let word := characters.map lowerLetter
  if word = ['n', 'a', 'n'] then some (signedNaN negative)
  else if word = ['i', 'n', 'f'] ∨ word = ['i', 'n', 'f', 'i', 'n', 'i', 't', 'y'] then
    some (infinity negative)
  else readNumber negative characters

/-- The double in a text. -/
def read (characters : List Char) : Option Binary64 :=
  match characters with
  | '-' :: rest => readUnsigned true rest
  | '+' :: rest => readUnsigned false rest
  | rest => readUnsigned false rest

end EntityMapping.Binary64
