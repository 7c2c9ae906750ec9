import EntityMapping.Stream.Error
/-!
# Writing a document as a stream of events

A writer takes starts, ends, names and values one at a time and builds one
value from them. Its open scopes form a stack of frames; each frame knows the
slot its finished value goes to. A refused call leaves the writer as it was.
-/

namespace EntityMapping

/-- An open scope. -/
inductive Frame where
  /-- A document with the entries written so far. -/
  | document (entries : Document) (slot : Slot)
  /-- An array with the items written so far. -/
  | array (items : List Bson) (slot : Slot)

/-- A writer between two calls. -/
structure Writer where
  /-- The open scopes, innermost first. -/
  stack : List Frame
  /-- The name written for the next value of the innermost document. -/
  pendingName : Option String
  /-- The finished value. -/
  root : Option Bson
  /-- The entries the root document starts with. -/
  seed : Option Document

/-- A writing step: a result or a refusal, and the writer after it. -/
abbrev WriteM := ExceptT DocumentError (StateM Writer)

namespace Writer

/-- A writer before its first call. -/
def empty : Writer := ⟨[], none, none, none⟩

/-- A writer whose root document starts with given entries; a name written later
replaces the seeded value in place. -/
def seeded (entries : Document) : Writer := ⟨[], none, none, some entries⟩

/-- The count of open scopes. -/
def depth (writer : Writer) : Nat := writer.stack.length

/-- Whether the whole value has been written. -/
def isFinished (writer : Writer) : Bool :=
  writer.stack.isEmpty && writer.root.isSome

/-- Refuse a call. -/
def refuse {α : Type} (fault : WriterFault) : WriteM α :=
  throw (.invalidState fault)

/-- The slot of the next value; inside a document this uses up the pending name. -/
def beginValue : WriteM Slot := do
  let writer ← get
  match writer.stack with
  | .document _ _ :: _ =>
    match writer.pendingName with
    | some name =>
      set { writer with pendingName := none }
      pure (.field name)
    | none => refuse .valueWithoutName
  | .array _ _ :: _ => pure .element
  | [] => if writer.root.isSome then refuse .rootAlreadyWritten else pure .root

/-- Put a finished value into its slot. -/
def finishValue (slot : Slot) (value : Bson) : WriteM Unit := do
  let writer ← get
  match slot, writer.stack with
  | .field name, .document entries place :: rest =>
    set { writer with stack := .document (Keyed.insert name value entries) place :: rest }
  | .element, .array items place :: rest =>
    set { writer with stack := .array (items ++ [value]) place :: rest }
  | .root, [] => set { writer with root := some value }
  | _, _ => refuse (.misplaced slot)

/-- Open a document; at the root it starts with the seed. -/
def startDocument : WriteM Unit := do
  let slot ← beginValue
  let writer ← get
  match slot with
  | .root =>
    set { writer with
      stack := .document (writer.seed.getD []) slot :: writer.stack
      seed := none }
  | _ => set { writer with stack := .document [] slot :: writer.stack }

/-- Close the innermost scope, which must be a document without a pending name. -/
def endDocument : WriteM Unit := do
  let writer ← get
  match writer.pendingName with
  | some name => refuse (.nameWithoutValue name)
  | none =>
    match writer.stack with
    | .document entries slot :: rest =>
      set { writer with stack := rest }
      finishValue slot (.document entries)
    | .array _ _ :: _ => refuse .endOfDocumentInsideArray
    | [] => refuse .endOfDocumentWithoutStart

/-- Open an array. -/
def startArray : WriteM Unit := do
  let slot ← beginValue
  modify fun writer => { writer with stack := .array [] slot :: writer.stack }

/-- Close the innermost scope, which must be an array. -/
def endArray : WriteM Unit := do
  let writer ← get
  match writer.stack with
  | .array items slot :: rest =>
    set { writer with stack := rest }
    finishValue slot (.array items)
  | .document _ _ :: _ => refuse .endOfArrayInsideDocument
  | [] => refuse .endOfArrayWithoutStart

/-- Name the next value of the innermost scope, which must be a document. -/
def writeName (name : String) : WriteM Unit := do
  let writer ← get
  match writer.stack with
  | .document _ _ :: _ =>
    match writer.pendingName with
    | some pending => refuse (.nameWhilePending name pending)
    | none => set { writer with pendingName := some name }
  | _ => refuse (.nameOutsideDocument name)

/-- Write a whole value. -/
def writeValue (value : Bson) : WriteM Unit := do
  let slot ← beginValue
  finishValue slot value

/-- Write a name and its value. -/
def writeField (name : String) (value : Bson) : WriteM Unit := do
  writeName name
  writeValue value

/-- Write a document around what a body writes. -/
def inDocument (body : WriteM Unit) : WriteM Unit := do
  startDocument
  body
  endDocument

/-- Write an array around what a body writes. -/
def inArray (body : WriteM Unit) : WriteM Unit := do
  startArray
  body
  endArray

/-- Write a named document around what a body writes. -/
def inNamedDocument (name : String) (body : WriteM Unit) : WriteM Unit := do
  writeName name
  inDocument body

/-- Write a named array around what a body writes. -/
def inNamedArray (name : String) (body : WriteM Unit) : WriteM Unit := do
  writeName name
  inArray body

/-- The finished value. -/
def value? (writer : Writer) : Except DocumentError Bson :=
  if writer.stack.isEmpty then
    match writer.root with
    | some value => .ok value
    | none => .error .nothingWritten
  else .error (.openScopes writer.depth)

/-- The finished value, which must be a document. -/
def document? (writer : Writer) : Except DocumentError Document := do
  match ← writer.value? with
  | .document entries => pure entries
  | other => throw (.notADocument other.elementType)

/-- The value that a body writes into an empty writer. -/
def valueOf (body : WriteM Unit) : Except DocumentError Bson :=
  match body.run.run empty with
  | (.ok _, writer) => writer.value?
  | (.error cause, _) => .error cause

end Writer

end EntityMapping
