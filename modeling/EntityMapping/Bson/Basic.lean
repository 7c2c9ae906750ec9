import EntityMapping.Binary64.Basic
import EntityMapping.Keyed
import EntityMapping.ObjectId
/-!
# The values documents are made of

A document is an ordered list of named values; a value is a scalar, an array or
another document. The element type of a value is the tag it has on the wire and
in error messages.
-/

namespace EntityMapping

/-- One value of a document, of any of the types the wire format knows. -/
inductive Bson where
  /-- The absent value. -/
  | null
  /-- A truth value. -/
  | boolean (value : Bool)
  /-- A signed 32-bit integer. -/
  | int32 (value : Int32)
  /-- A signed 64-bit integer. -/
  | int64 (value : Int64)
  /-- A double precision number. -/
  | double (value : Binary64)
  /-- A text. -/
  | string (value : String)
  /-- An object identifier. -/
  | objectId (value : ObjectId)
  /-- A time in milliseconds since the start of 1970. -/
  | dateTime (millis : Int64)
  /-- An ordered list of values. -/
  | array (items : List Bson)
  /-- An embedded document. -/
  | document (entries : List (String × Bson))
  /-- A regular expression with its options. -/
  | regex (pattern options : String)
  /-- A piece of code. -/
  | code (source : String)
  /-- A piece of code with the document it runs in. -/
  | scopedCode (source : String) (scope : List (String × Bson))
  /-- Raw bytes with a subtype. -/
  | binary (subtype : UInt8) (bytes : List UInt8)
  /-- An internal time stamp: seconds and a counter. -/
  | timestamp (time increment : UInt32)
  /-- A decimal number, as its sixteen bytes in wire order. -/
  | decimal (bytes : BitVec 128)
  /-- A symbol. -/
  | symbol (value : String)
  /-- The retired undefined value. -/
  | undefined
  /-- The value below all others. -/
  | minKey
  /-- The value above all others. -/
  | maxKey
  /-- A retired reference: a namespace and an identifier in it. -/
  | reference (namespaceName : String) (id : ObjectId)
  deriving Inhabited

/-- An ordered document. -/
abbrev Document := Keyed Bson

/-- The type of a value, without the value. -/
inductive ElementType where
  | double | string | embeddedDocument | array | binary | undefined | objectId | boolean
  | dateTime | null | regularExpression | dbPointer | javaScriptCode | symbol
  | javaScriptCodeWithScope | int32 | timestamp | int64 | decimal128 | minKey | maxKey
  deriving DecidableEq

namespace ElementType

/-- The name of a type in messages. -/
def name : ElementType → String
  | double => "Double"
  | string => "String"
  | embeddedDocument => "EmbeddedDocument"
  | array => "Array"
  | binary => "Binary"
  | undefined => "Undefined"
  | objectId => "ObjectId"
  | boolean => "Boolean"
  | dateTime => "DateTime"
  | null => "Null"
  | regularExpression => "RegularExpression"
  | dbPointer => "DbPointer"
  | javaScriptCode => "JavaScriptCode"
  | symbol => "Symbol"
  | javaScriptCodeWithScope => "JavaScriptCodeWithScope"
  | int32 => "Int32"
  | timestamp => "Timestamp"
  | int64 => "Int64"
  | decimal128 => "Decimal128"
  | minKey => "MinKey"
  | maxKey => "MaxKey"

/-- The tag byte of a type on the wire. -/
def code : ElementType → UInt8
  | double => 0x01
  | string => 0x02
  | embeddedDocument => 0x03
  | array => 0x04
  | binary => 0x05
  | undefined => 0x06
  | objectId => 0x07
  | boolean => 0x08
  | dateTime => 0x09
  | null => 0x0A
  | regularExpression => 0x0B
  | dbPointer => 0x0C
  | javaScriptCode => 0x0D
  | symbol => 0x0E
  | javaScriptCodeWithScope => 0x0F
  | int32 => 0x10
  | timestamp => 0x11
  | int64 => 0x12
  | decimal128 => 0x13
  | minKey => 0xFF
  | maxKey => 0x7F

/-- Every element type. -/
def all : List ElementType :=
  [double, string, embeddedDocument, array, binary, undefined, objectId, boolean, dateTime,
   null, regularExpression, dbPointer, javaScriptCode, symbol, javaScriptCodeWithScope, int32,
   timestamp, int64, decimal128, minKey, maxKey]

/-- The element type with a given tag byte. -/
def ofCode (tag : UInt8) : Option ElementType :=
  all.find? fun kind => decide (kind.code = tag)

/-- A tag byte determines its type. -/
theorem ofCode_code (kind : ElementType) : ofCode kind.code = some kind := by
  cases kind <;> decide

end ElementType

namespace Bson

/-- The element type of a value. -/
def elementType : Bson → ElementType
  | null => .null
  | boolean _ => .boolean
  | int32 _ => .int32
  | int64 _ => .int64
  | double _ => .double
  | string _ => .string
  | objectId _ => .objectId
  | dateTime _ => .dateTime
  | array _ => .array
  | document _ => .embeddedDocument
  | regex _ _ => .regularExpression
  | code _ => .javaScriptCode
  | scopedCode _ _ => .javaScriptCodeWithScope
  | binary _ _ => .binary
  | timestamp _ _ => .timestamp
  | decimal _ => .decimal128
  | symbol _ => .symbol
  | undefined => .undefined
  | minKey => .minKey
  | maxKey => .maxKey
  | reference _ _ => .dbPointer

end Bson

namespace Document

/-- The text stored under a key, if a text is stored there. -/
def text? (key : String) (document : Document) : Option String :=
  match Keyed.get? key document with
  | some (.string value) => some value
  | _ => none

end Document

end EntityMapping
