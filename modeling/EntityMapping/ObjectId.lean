import EntityMapping.Text.Digits
/-!
# Object identifiers

Twelve bytes that name a document, held as one number and written as
twenty-four hexadecimal digits.
-/

namespace EntityMapping

/-- A twelve byte identifier. -/
structure ObjectId where
  /-- The bytes as one number, first byte on top. -/
  value : BitVec 96
  deriving DecidableEq

namespace ObjectId

/-- The identifier with a given number. -/
def ofNat (value : Nat) : ObjectId := ⟨BitVec.ofNat 96 value⟩

/-- The twenty-four digits of an identifier, in lower case. -/
def text (id : ObjectId) : String :=
  Digits.hexText 24 id.value.toNat

/-- The identifier in exactly twenty-four hexadecimal digits of either case. -/
def read (characters : String) : Option ObjectId :=
  (Digits.readHex 24 characters).map ofNat

end ObjectId

end EntityMapping
