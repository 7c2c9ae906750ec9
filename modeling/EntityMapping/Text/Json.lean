import EntityMapping.Text.Digits
/-!
# JSON texts

Reading a JSON text into a tree that keeps what settings need: truth values,
texts and structure; a number only has to be well formed. Texts are kept as
they were escaped and put together on demand, since a pair of escapes that
forms no character matters only where the text is used. Writing covers quoted
texts.
-/

namespace EntityMapping.Json

/-- One element of a quoted text. -/
inductive Piece where
  /-- A character, plain or escaped by a letter. -/
  | char (value : Char)
  /-- A sixteen bit unit given by four hexadecimal digits. -/
  | unit (value : Nat)

/-- A JSON value. -/
inductive Tree where
  /-- The null literal. -/
  | null
  /-- A truth value. -/
  | bool (value : Bool)
  /-- A well formed number. -/
  | number
  /-- A quoted text. -/
  | string (pieces : List Piece)
  /-- Values in brackets. -/
  | array (items : List Tree)
  /-- Named values in braces, in order and with repetitions. -/
  | object (members : List (List Piece × Tree))

/-- The characters that pieces stand for: a high and a low unit form one
character, and neither may stand alone. -/
def assemble : List Piece → Option (List Char)
  | [] => some []
  | .char c :: rest => (assemble rest).map (c :: ·)
  | .unit high :: .unit low :: rest =>
    if 0xD800 ≤ high ∧ high ≤ 0xDBFF then
      if 0xDC00 ≤ low ∧ low ≤ 0xDFFF then
        (assemble rest).map
          (Char.ofNat (0x10000 + (high - 0xD800) * 0x400 + (low - 0xDC00)) :: ·)
      else none
    else if 0xDC00 ≤ high ∧ high ≤ 0xDFFF then none
    else (assemble (.unit low :: rest)).map (Char.ofNat high :: ·)
  | .unit value :: rest =>
    if 0xD800 ≤ value ∧ value ≤ 0xDFFF then none
    else (assemble rest).map (Char.ofNat value :: ·)

/-- The text that pieces stand for. -/
def text? (pieces : List Piece) : Option String :=
  (assemble pieces).map String.ofList

/-- Whether a character may stand between the parts of a JSON text. -/
def isSpace (c : Char) : Bool :=
  c == ' ' || c == '\n' || c == '\t' || c == '\r'

/-- The characters after leading space. -/
def skipSpace (characters : List Char) : List Char :=
  characters.dropWhile isSpace

/-- The character that a letter stands for after a backslash. -/
def escaped : Char → Option Char
  | '"' => some '"'
  | '\\' => some '\\'
  | '/' => some '/'
  | 'b' => some '\x08'
  | 'f' => some '\x0c'
  | 'n' => some '\n'
  | 'r' => some '\r'
  | 't' => some '\t'
  | _ => none

/-- The pieces up to the closing quote, and the rest. -/
def quoted : List Char → Option (List Piece × List Char)
  | [] => none
  | '"' :: rest => some ([], rest)
  | '\\' :: 'u' :: a :: b :: c :: d :: rest => do
    let digits ← [a, b, c, d].mapM Digits.hexValue
    let (pieces, rest) ← quoted rest
    some (.unit (Digits.ofBig 16 digits) :: pieces, rest)
  | '\\' :: letter :: rest => do
    let c ← escaped letter
    let (pieces, rest) ← quoted rest
    some (.char c :: pieces, rest)
  | c :: rest =>
    if c.toNat < 0x20 ∨ c = '\\' then none
    else do
      let (pieces, rest) ← quoted rest
      some (.char c :: pieces, rest)

/-- One or more decimal digits are dropped. -/
def skipDigits (characters : List Char) : Option (List Char) :=
  match characters with
  | c :: rest => if Digits.isDecimal c then some (rest.dropWhile Digits.isDecimal) else none
  | [] => none

/-- The characters after an optional exponent. -/
def skipExponent (characters : List Char) : Option (List Char) :=
  match characters with
  | mark :: rest =>
    if mark = 'e' ∨ mark = 'E' then
      match rest with
      | '+' :: rest => skipDigits rest
      | '-' :: rest => skipDigits rest
      | rest => skipDigits rest
    else some (mark :: rest)
  | [] => some []

/-- The characters after an optional fraction and exponent. -/
def skipFraction (characters : List Char) : Option (List Char) :=
  match characters with
  | '.' :: rest => (skipDigits rest).bind skipExponent
  | rest => skipExponent rest

/-- The characters after a number; a leading zero stands alone. -/
def skipNumber (characters : List Char) : Option (List Char) :=
  let unsigned :=
    match characters with
    | '-' :: rest => rest
    | rest => rest
  match unsigned with
  | '0' :: c :: rest => if Digits.isDecimal c then none else skipFraction (c :: rest)
  | rest => (skipDigits rest).bind skipFraction

mutual

/-- A value after optional space, and the rest. -/
def readWithin : Nat → List Char → Option (Tree × List Char)
  | 0, _ => none
  | fuel + 1, characters =>
    match skipSpace characters with
    | 'n' :: 'u' :: 'l' :: 'l' :: rest => some (.null, rest)
    | 't' :: 'r' :: 'u' :: 'e' :: rest => some (.bool true, rest)
    | 'f' :: 'a' :: 'l' :: 's' :: 'e' :: rest => some (.bool false, rest)
    | '"' :: rest => (quoted rest).map fun found => (.string found.1, found.2)
    | '[' :: rest =>
      match skipSpace rest with
      | ']' :: rest => some (.array [], rest)
      | rest => (readItems fuel rest).map fun found => (.array found.1, found.2)
    | '\x7b' :: rest =>
      match skipSpace rest with
      | '\x7d' :: rest => some (.object [], rest)
      | rest => (readMembers fuel rest).map fun found => (.object found.1, found.2)
    | rest => (skipNumber rest).map fun rest => (.number, rest)

/-- One or more items up to the closing bracket, and the rest. -/
def readItems : Nat → List Char → Option (List Tree × List Char)
  | 0, _ => none
  | fuel + 1, characters => do
    let (item, rest) ← readWithin fuel characters
    match skipSpace rest with
    | ',' :: rest => do
      let (items, rest) ← readItems fuel rest
      some (item :: items, rest)
    | ']' :: rest => some ([item], rest)
    | _ => none

/-- One or more members up to the closing brace, and the rest. -/
def readMembers : Nat → List Char → Option (List (List Piece × Tree) × List Char)
  | 0, _ => none
  | fuel + 1, characters =>
    match skipSpace characters with
    | '"' :: rest => do
      let (key, rest) ← quoted rest
      match skipSpace rest with
      | ':' :: rest => do
        let (value, rest) ← readWithin fuel rest
        match skipSpace rest with
        | ',' :: rest => do
          let (members, rest) ← readMembers fuel rest
          some ((key, value) :: members, rest)
        | '\x7d' :: rest => some ([(key, value)], rest)
        | _ => none
      | _ => none
    | _ => none

end

/-- The value of a whole text; only space may follow it. -/
def read (text : String) : Option Tree := do
  let characters := text.toList
  let (value, rest) ← readWithin (characters.length + 1) characters
  if (skipSpace rest).isEmpty then some value else none

/-- The escaped form of one character of a quoted text. -/
def escape (c : Char) : List Char :=
  if c = '"' then ['\\', '"']
  else if c = '\\' then ['\\', '\\']
  else if c = '\x08' then ['\\', 'b']
  else if c = '\x0c' then ['\\', 'f']
  else if c = '\n' then ['\\', 'n']
  else if c = '\r' then ['\\', 'r']
  else if c = '\t' then ['\\', 't']
  else if c.toNat < 0x20 then
    ['\\', 'u', '0', '0', Digits.hexChar (c.toNat / 16), Digits.hexChar (c.toNat % 16)]
  else [c]

/-- A text in quotes. -/
def quote (text : String) : String :=
  String.ofList ('"' :: (text.toList.flatMap escape ++ ['"']))

end EntityMapping.Json
