import EntityMapping.Stream.Error
import EntityMapping.Text.Integer
/-!
# The bytes of a document

A document on the wire is its length, its entries and a zero byte; an entry is
a type tag, a zero-terminated name and the bytes of the value. Words are
written with their lowest byte first. A name, a pattern or pattern options
with a NUL character cannot be written, and pattern options are written and
read in the order of their characters. Reading refuses every length,
terminator, tag, truth value or text that does not fit, and lets a repeated
name keep its first place and its last value.
-/

namespace EntityMapping.Wire

/-- The bytes of digits in base two hundred and fifty-six. -/
def ofDigits (digits : List Nat) : List UInt8 :=
  digits.map UInt8.ofNat

/-- The lowest bytes of a number, lowest first. -/
def word (count value : Nat) : List UInt8 :=
  ofDigits (Digits.little 256 count value)

/-- The number whose bytes are given lowest first. -/
def ofWord (bytes : List UInt8) : Nat :=
  Digits.ofLittle 256 (bytes.map UInt8.toNat)

/-- The bytes of a number, highest first. -/
def field (count value : Nat) : List UInt8 :=
  ofDigits (Digits.big 256 count value)

/-- The number whose bytes are given highest first. -/
def ofField (bytes : List UInt8) : Nat :=
  Digits.ofBig 256 (bytes.map UInt8.toNat)

/-- The bytes of a text. -/
def textBytes (text : String) : List UInt8 :=
  text.toUTF8.toList

/-- The text with the given bytes, if they are well formed. -/
def ofTextBytes (bytes : List UInt8) : Option String :=
  String.fromUTF8? ⟨bytes.toArray⟩

/-- The bytes of a length-prefixed text with its final zero. -/
def string (text : String) : List UInt8 :=
  let bytes := textBytes text
  word 4 (bytes.length + 1) ++ bytes ++ [0]

/-- The bytes of a zero-terminated name, which must hold no NUL. -/
def name (text : String) : Option (List UInt8) :=
  let bytes := textBytes text
  if bytes.contains 0 then none else some (bytes ++ [0])

/-- The bytes of a document around those of its entries. -/
def enclose (body : List UInt8) : List UInt8 :=
  word 4 (body.length + 5) ++ body ++ [0]

/-- The name of an array item: its index in decimal. -/
def indexName (index : Nat) : String :=
  String.ofList (Integer.naturalDigits index)

/-- Pattern options in the order of their characters. -/
def sortOptions (options : String) : String :=
  String.ofList (options.toList.mergeSort fun left right => decide (left.toNat ≤ right.toNat))

mutual

/-- The bytes of a value, without its tag and name. -/
def payload : Bson → Option (List UInt8)
  | .null => some []
  | .undefined => some []
  | .minKey => some []
  | .maxKey => some []
  | .boolean value => some [if value then 1 else 0]
  | .int32 value => some (word 4 value.toUInt32.toNat)
  | .int64 value => some (word 8 value.toUInt64.toNat)
  | .double value => some (word 8 value.bits.toNat)
  | .string text => some (string text)
  | .symbol text => some (string text)
  | .code source => some (string source)
  | .objectId id => some (field 12 id.value.toNat)
  | .dateTime millis => some (word 8 millis.toUInt64.toNat)
  | .decimal bytes => some (field 16 bytes.toNat)
  | .timestamp time increment => some (word 4 increment.toNat ++ word 4 time.toNat)
  | .reference space id => some (string space ++ field 12 id.value.toNat)
  | .binary subtype bytes =>
    if subtype = 2 then
      some (word 4 (bytes.length + 4) ++ [subtype] ++ word 4 bytes.length ++ bytes)
    else some (word 4 bytes.length ++ [subtype] ++ bytes)
  | .regex pattern options => do
    let pattern ← name pattern
    let options ← name (sortOptions options)
    some (pattern ++ options)
  | .array items => (itemBytes 0 items).map enclose
  | .document entries => (entryBytes entries).map enclose
  | .scopedCode source scope => do
    let body ← entryBytes scope
    let content := string source ++ enclose body
    some (word 4 (content.length + 4) ++ content)

/-- The bytes of the items of an array from a given index on. -/
def itemBytes : Nat → List Bson → Option (List UInt8)
  | _, [] => some []
  | index, item :: rest => do
    let label ← name (indexName index)
    let value ← payload item
    let others ← itemBytes (index + 1) rest
    some (item.elementType.code :: (label ++ value ++ others))

/-- The bytes of the entries of a document. -/
def entryBytes : List (String × Bson) → Option (List UInt8)
  | [] => some []
  | (key, value) :: rest => do
    let label ← name key
    let content ← payload value
    let others ← entryBytes rest
    some (value.elementType.code :: (label ++ content ++ others))

end

/-- The bytes of a document. -/
def write (document : Document) : Except DocumentError (List UInt8) :=
  match entryBytes document with
  | some body => .ok (enclose body)
  | none => .error .unwritable

/-- The first bytes and the rest, if there are that many. -/
def split (count : Nat) (bytes : List UInt8) : Option (List UInt8 × List UInt8) :=
  let head := bytes.take count
  if head.length = count then some (head, bytes.drop count) else none

/-- A number of four bytes that must not be negative, and the rest. -/
def readLength (bytes : List UInt8) : Option (Nat × List UInt8) := do
  let (head, rest) ← split 4 bytes
  let value := ofWord head
  if value < 2147483648 then some (value, rest) else none

/-- A zero-terminated text and the rest. -/
def readName (bytes : List UInt8) : Option (String × List UInt8) := do
  let content := bytes.takeWhile (· != 0)
  match bytes.drop content.length with
  | _ :: rest => do
    let text ← ofTextBytes content
    some (text, rest)
  | [] => none

/-- A length-prefixed text with its final zero, and the rest. -/
def readString (bytes : List UInt8) : Option (String × List UInt8) := do
  let (count, rest) ← readLength bytes
  if count = 0 then none
  else
    let (content, rest) ← split (count - 1) rest
    match rest with
    | 0 :: rest => do
      let text ← ofTextBytes content
      some (text, rest)
    | _ => none

/-- The content between the length and the final zero of a document, with the
final zero, and the rest. -/
def readEnclosed (bytes : List UInt8) : Option (List UInt8 × List UInt8) := do
  let (count, rest) ← readLength bytes
  if count < 5 then none else split (count - 4) rest

/-- Raw bytes with their subtype, and the rest. Subtype two carries its length a
second time. -/
def readBinary (bytes : List UInt8) : Option (Bson × List UInt8) := do
  let (count, rest) ← readLength bytes
  match rest with
  | [] => none
  | subtype :: rest => do
    let (content, rest) ← split count rest
    if subtype = 2 then
      let (inner, content) ← readLength content
      if inner = content.length then some (.binary subtype content, rest) else none
    else some (.binary subtype content, rest)

/-- A value of a type without nested documents, and the rest. -/
def readScalar (kind : ElementType) (bytes : List UInt8) : Option (Bson × List UInt8) :=
  match kind with
  | .null => some (.null, bytes)
  | .undefined => some (.undefined, bytes)
  | .minKey => some (.minKey, bytes)
  | .maxKey => some (.maxKey, bytes)
  | .boolean =>
    match bytes with
    | 0 :: rest => some (.boolean false, rest)
    | 1 :: rest => some (.boolean true, rest)
    | _ => none
  | .int32 => do
    let (head, rest) ← split 4 bytes
    some (.int32 (UInt32.ofNat (ofWord head)).toInt32, rest)
  | .int64 => do
    let (head, rest) ← split 8 bytes
    some (.int64 (UInt64.ofNat (ofWord head)).toInt64, rest)
  | .double => do
    let (head, rest) ← split 8 bytes
    some (.double ⟨UInt64.ofNat (ofWord head)⟩, rest)
  | .dateTime => do
    let (head, rest) ← split 8 bytes
    some (.dateTime (UInt64.ofNat (ofWord head)).toInt64, rest)
  | .timestamp => do
    let (increment, rest) ← split 4 bytes
    let (time, rest) ← split 4 rest
    some (.timestamp (UInt32.ofNat (ofWord time)) (UInt32.ofNat (ofWord increment)), rest)
  | .objectId => do
    let (head, rest) ← split 12 bytes
    some (.objectId (ObjectId.ofNat (ofField head)), rest)
  | .decimal128 => do
    let (head, rest) ← split 16 bytes
    some (.decimal (BitVec.ofNat 128 (ofField head)), rest)
  | .string => do
    let (text, rest) ← readString bytes
    some (.string text, rest)
  | .symbol => do
    let (text, rest) ← readString bytes
    some (.symbol text, rest)
  | .javaScriptCode => do
    let (text, rest) ← readString bytes
    some (.code text, rest)
  | .dbPointer => do
    let (text, rest) ← readString bytes
    let (head, rest) ← split 12 rest
    some (.reference text (ObjectId.ofNat (ofField head)), rest)
  | .regularExpression => do
    let (pattern, rest) ← readName bytes
    let (options, rest) ← readName rest
    some (.regex pattern (sortOptions options), rest)
  | .binary => readBinary bytes
  | .array => none
  | .embeddedDocument => none
  | .javaScriptCodeWithScope => none

mutual

/-- A value of a known type, and the rest. -/
def readPayload : Nat → ElementType → List UInt8 → Option (Bson × List UInt8)
  | 0, _, _ => none
  | fuel + 1, kind, bytes =>
    match kind with
    | .embeddedDocument => do
      let (body, rest) ← readEnclosed bytes
      let entries ← readEntries fuel body
      some (.document (Keyed.ofPairs entries), rest)
    | .array => do
      let (body, rest) ← readEnclosed bytes
      let entries ← readEntries fuel body
      some (.array (entries.map Prod.snd), rest)
    | .javaScriptCodeWithScope => do
      let (count, rest) ← readLength bytes
      let (content, rest) ← split (count - 4) rest
      let (source, scope) ← readString content
      let (body, after) ← readEnclosed scope
      let entries ← readEntries fuel body
      if after.isEmpty then some (.scopedCode source (Keyed.ofPairs entries), rest) else none
    | other => readScalar other bytes

/-- The entries up to a final zero, which must be the last byte. -/
def readEntries : Nat → List UInt8 → Option (List (String × Bson))
  | 0, _ => none
  | _ + 1, [] => none
  | fuel + 1, tag :: rest =>
    if tag = 0 then (if rest.isEmpty then some [] else none)
    else do
      let kind ← ElementType.ofCode tag
      let (key, rest) ← readName rest
      let (value, rest) ← readPayload fuel kind rest
      let others ← readEntries fuel rest
      some ((key, value) :: others)

end

/-- The document at the start of the given bytes; what follows it is ignored. -/
def read (bytes : List UInt8) : Except DocumentError Document :=
  let parsed : Option Document := do
    let (body, _) ← readEnclosed bytes
    let entries ← readEntries (bytes.length + 1) body
    some (Keyed.ofPairs entries)
  match parsed with
  | some document => .ok document
  | none => .error .unreadable

end EntityMapping.Wire
