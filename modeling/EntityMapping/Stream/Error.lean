import EntityMapping.Stream.Token
/-!
# What can go wrong while documents are written and read

Each constructor is one cause; the wording of all of them is in the message
functions.
-/

namespace EntityMapping

/-- Where a finished value goes in its parent. -/
inductive Slot where
  /-- A named entry of the enclosing document. -/
  | field (name : String)
  /-- The next item of the enclosing array. -/
  | element
  /-- The value of the whole writer. -/
  | root
  deriving DecidableEq

/-- Why a writer refuses a call in its present state. -/
inductive WriterFault where
  | nameWithoutValue (name : String)
  | endOfDocumentInsideArray
  | endOfDocumentWithoutStart
  | endOfArrayInsideDocument
  | endOfArrayWithoutStart
  | nameOutsideDocument (name : String)
  | nameWhilePending (name pending : String)
  | valueWithoutName
  | rootAlreadyWritten
  | misplaced (slot : Slot)
  deriving DecidableEq

/-- What a reader was asked for. -/
inductive Expectation where
  | boundary (kind : Boundary)
  | value
  | entry
  | fieldName
  deriving DecidableEq

/-- The cause of a failed writing or reading step. -/
inductive DocumentError where
  /-- A writer call came in a state that does not allow it. -/
  | invalidState (fault : WriterFault)
  /-- Another token stood where one kind was asked for. -/
  | unexpectedToken (expected : Expectation) (found : Token)
  /-- The finished value of a writer is not a document. -/
  | notADocument (found : ElementType)
  /-- A typed read met a value of another type. -/
  | typeMismatch (expected found : ElementType)
  /-- The tokens ran out. -/
  | endOfStream
  /-- The writer was closed while scopes were open. -/
  | openScopes (count : Nat)
  /-- The writer was closed before anything was written. -/
  | nothingWritten
  /-- A name or pattern cannot be put on the wire. -/
  | unwritable
  /-- The bytes are not those of a document. -/
  | unreadable

namespace Slot

/-- The words for a slot in messages. -/
def text : Slot → String
  | field name => "Field(\"" ++ name ++ "\")"
  | element => "Element"
  | root => "Root"

end Slot

namespace WriterFault

/-- The wording of a writer's refusal. -/
def message : WriterFault → String
  | nameWithoutValue name => s!"name '{name}' written without a value"
  | endOfDocumentInsideArray => "end of document inside an array"
  | endOfDocumentWithoutStart => "end of document without a start"
  | endOfArrayInsideDocument => "end of array inside a document"
  | endOfArrayWithoutStart => "end of array without a start"
  | nameOutsideDocument name => s!"name '{name}' written outside of a document"
  | nameWhilePending name pending =>
    s!"name '{name}' written while '{pending}' still has no value"
  | valueWithoutName => "value written without a name"
  | rootAlreadyWritten => "top-level value already written"
  | misplaced slot => "value cannot be placed into " ++ slot.text

end WriterFault

namespace Expectation

/-- The words for what was asked for. -/
def text : Expectation → String
  | boundary kind => kind.text
  | value => "value"
  | entry => "entry"
  | fieldName => "field name"

end Expectation

namespace DocumentError

/-- The short name of a cause, by which callers tell causes apart. -/
def kind : DocumentError → String
  | invalidState _ => "InvalidState"
  | unexpectedToken _ _ => "UnexpectedToken"
  | notADocument _ => "UnexpectedToken"
  | typeMismatch _ _ => "TypeMismatch"
  | endOfStream => "EndOfStream"
  | openScopes _ => "Incomplete"
  | nothingWritten => "Incomplete"
  | unwritable => "Serialize"
  | unreadable => "Deserialize"

/-- The wording of a failed step. -/
def message : DocumentError → String
  | invalidState fault => "invalid writer state: " ++ fault.message
  | unexpectedToken expected found =>
    "unexpected " ++ found.text ++ " while expecting " ++ expected.text
  | notADocument found => "unexpected " ++ found.name ++ " while expecting document"
  | typeMismatch expected found =>
    "type mismatch: expected " ++ expected.name ++ ", found " ++ found.name
  | endOfStream => "unexpected end of document stream"
  | openScopes count => s!"incomplete document: {count} scope(s) still open"
  | nothingWritten => "incomplete document: nothing was written"
  | unwritable => "bson serialization failed: a name or pattern holds a NUL character"
  | unreadable => "bson deserialization failed: malformed bytes"

/-- Whether the failure only says that a value had another type. -/
def isTypeMismatch : DocumentError → Bool
  | typeMismatch _ _ => true
  | _ => false

end DocumentError

end EntityMapping
