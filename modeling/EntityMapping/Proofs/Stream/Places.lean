import EntityMapping.Proofs.Steps
import EntityMapping.Stream.Writer
/-!
# Where a writer puts values

A writer is ready when the next value has a place: the name written before it, the
end of an array, or the root. Whatever is written at once or piece by piece ends
up at that place, and the rest of the writer stays as it was.
-/

namespace EntityMapping.Writer

/-- A writer inside a document, before a name. -/
def within (entries : Document) (slot : Slot) (outer : List Frame) (root : Option Bson) :
    Writer :=
  ⟨.document entries slot :: outer, none, root, none⟩

/-- A writer inside an array, before an item. -/
def among (items : List Bson) (slot : Slot) (outer : List Frame) (root : Option Bson) :
    Writer :=
  ⟨.array items slot :: outer, none, root, none⟩

/-- A writer that may take a value. -/
inductive Ready : Writer → Prop where
  /-- At the root. -/
  | root : Ready empty
  /-- Behind a name. -/
  | field (name : String) (entries : Document) (slot : Slot) (outer : List Frame)
    (root : Option Bson) : Ready { within entries slot outer root with pendingName := some name }
  /-- In an array. -/
  | element (items : List Bson) (slot : Slot) (outer : List Frame) (root : Option Bson) :
    Ready (among items slot outer root)

/-- The slot of the next value. -/
def slot (writer : Writer) : Slot :=
  match writer.stack, writer.pendingName with
  | .document _ _ :: _, some name => .field name
  | .array _ _ :: _, _ => .element
  | _, _ => .root

/-- The writer with its next value in its place. -/
def place (writer : Writer) (value : Bson) : Writer :=
  match writer.stack, writer.pendingName with
  | .document entries slot :: outer, some name =>
    within (Keyed.insert name value entries) slot outer writer.root
  | .array items slot :: outer, _ => among (items ++ [value]) slot outer writer.root
  | _, _ => { writer with root := some value }

variable {writer : Writer}

/-- A value is put in its place. -/
theorem perform_writeValue (ready : writer.Ready) (value : Bson) :
    perform (writeValue value) writer = (.ok (), writer.place value) := by
  cases ready <;> rfl

/-- A document is opened in the slot of the next value. -/
theorem perform_startDocument (ready : writer.Ready) :
    perform startDocument writer =
      (.ok (), within [] writer.slot writer.stack writer.root) := by
  cases ready <;> rfl

/-- The root document opens with its seed. -/
theorem perform_startDocument_seeded (entries : Document) :
    perform startDocument (seeded entries) = (.ok (), within entries .root [] none) := rfl

/-- A closed document is put in the place of the value it was opened for. -/
theorem perform_endDocument (ready : writer.Ready) (entries : Document) :
    perform endDocument (within entries writer.slot writer.stack writer.root) =
      (.ok (), writer.place (.document entries)) := by
  cases ready <;> rfl

/-- An array is opened in the slot of the next value. -/
theorem perform_startArray (ready : writer.Ready) :
    perform startArray writer = (.ok (), among [] writer.slot writer.stack writer.root) := by
  cases ready <;> rfl

/-- A closed array is put in the place of the value it was opened for. -/
theorem perform_endArray (ready : writer.Ready) (items : List Bson) :
    perform endArray (among items writer.slot writer.stack writer.root) =
      (.ok (), writer.place (.array items)) := by
  cases ready <;> rfl

/-- A name makes a writer ready. -/
theorem perform_writeName (name : String) (entries : Document) (slot : Slot)
    (outer : List Frame) (root : Option Bson) :
    perform (writeName name) (within entries slot outer root) =
      (.ok (), { within entries slot outer root with pendingName := some name }) := rfl

end EntityMapping.Writer
