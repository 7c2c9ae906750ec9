/-!
# White space at the ends of a text

The twenty-five code points with the Unicode property White_Space, and the
text that remains when they are dropped from both ends.
-/

namespace EntityMapping.Blank

/-- The ranges of code points with the property White_Space. -/
def ranges : List (Nat × Nat) :=
  [(0x9, 0xD), (0x20, 0x20), (0x85, 0x85), (0xA0, 0xA0), (0x1680, 0x1680),
   (0x2000, 0x200A), (0x2028, 0x2029), (0x202F, 0x202F), (0x205F, 0x205F), (0x3000, 0x3000)]

/-- Whether a character is white space. -/
def isBlank (c : Char) : Bool :=
  ranges.any fun range => range.1 ≤ c.toNat && c.toNat ≤ range.2

/-- The characters without the white space at both ends. -/
def trim (characters : List Char) : List Char :=
  ((characters.dropWhile isBlank).reverse.dropWhile isBlank).reverse

/-- The table holds twenty-five code points. -/
example : (ranges.map fun range => range.2 + 1 - range.1).sum = 25 := by
  decide

end EntityMapping.Blank
