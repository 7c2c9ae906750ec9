import EntityMapping.Proofs.Stream.Scopes
/-!
# Refused calls change nothing

A call takes the pending name, the seed or the innermost scope out of a writer before it is known
whether the call succeeds, and the end of an array does not look for a pending name at all. That a
refusal still leaves everything as it was rests on how the parts of a writer fit together: every
open scope has the slot that the scope around it gives its values, nothing is at the root while a
scope is open, and a name waits only in a document. `Arranged` says so. Every call keeps a writer
arranged, so a finished value always finds its place.
-/

namespace EntityMapping

/-- The slot that the value of a scope goes to. -/
def Frame.slot : Frame → Slot
  | document _ slot => slot
  | array _ slot => slot

/-- A slot is one for the values of the innermost of open scopes; where none is open, it is that of
the whole value. -/
inductive Slot.Fits : Slot → List Frame → Prop where
  /-- Outside of all scopes. -/
  | root : Fits .root []
  /-- In a document. -/
  | field (name : String) (entries : Document) (slot : Slot) (outer : List Frame) :
    Fits (.field name) (.document entries slot :: outer)
  /-- In an array. -/
  | element (items : List Bson) (slot : Slot) (outer : List Frame) :
    Fits .element (.array items slot :: outer)

/-- Every open scope has a slot in the scope around it. -/
inductive Frame.Nested : List Frame → Prop where
  /-- No scope. -/
  | outside : Nested []
  /-- A scope in others. -/
  | inside {frame : Frame} {outer : List Frame} (fits : frame.slot.Fits outer)
    (nested : Nested outer) : Nested (frame :: outer)

namespace Writer

/-- A writer whose parts fit together. -/
structure Arranged (writer : Writer) : Prop where
  /-- The scopes stand in one another. -/
  nested : Frame.Nested writer.stack
  /-- The whole value is not there while a scope is open. -/
  rootless : writer.stack ≠ [] → writer.root = none
  /-- A name waits for its value only in a document. -/
  settled : writer.Settled

/-- A call to a writer, or a name and its value in one call. -/
inductive Request where
  /-- A single call. -/
  | call (made : Call)
  /-- A name and its value. -/
  | field (label : String) (content : Bson)

/-- The step a request takes. -/
def Request.step : Request → WriteM Unit
  | call made => made.step
  | field label content => writeField label content

/-- A writer before its first call, with or without a seed. -/
def opening : Option Document → Writer
  | none => empty
  | some entries => seeded entries

/-- The writer after requests, whether they were accepted or refused. -/
def after (writer : Writer) (requests : List Request) : Writer :=
  requests.foldl (fun writer request => (perform request.step writer).2) writer

/-- A step is accepted and leaves the writer arranged, or it is refused and leaves the writer as it
was; it is never refused for want of a place for a finished value. -/
def Answers (writer : Writer) (action : WriteM Unit) : Prop :=
  (∃ after, perform action writer = (.ok (), after) ∧ after.Arranged) ∨
    ∃ fault, (∀ slot, fault ≠ .misplaced slot) ∧
      perform action writer = (.error (.invalidState fault), writer)

variable {writer : Writer}

/-- The slot of the next value is one of the innermost scope. -/
theorem slot_fits (takes : writer.takesValue = true) : writer.slot.Fits writer.stack := by
  obtain ⟨stack, pending, root, seed⟩ := writer
  match stack, pending with
  | .document entries slot :: outer, some name => exact .field name entries slot outer
  | .document entries slot :: outer, none => cases takes
  | .array items slot :: outer, _ => exact .element items slot outer
  | [], _ => exact .root

/-- A value that fits is put in its place, where no name waits and the whole value is not there. -/
theorem finishValue_fits {slot : Slot} (nested : Frame.Nested writer.stack)
    (unnamed : writer.pendingName = none) (rootless : writer.root = none)
    (fits : slot.Fits writer.stack) (content : Bson) :
    ∃ after, perform (finishValue slot content) writer = (.ok (), after) ∧ after.Arranged := by
  obtain ⟨stack, pending, root, seed⟩ := writer
  obtain rfl : root = none := rootless
  cases fits with
  | root => exact ⟨_, rfl, nested, fun opened => absurd rfl opened, .of_nameless unnamed⟩
  | field name entries slot outer =>
    cases nested with
    | inside fits nested =>
      exact ⟨_, rfl, .inside fits nested, fun _ => rfl, .of_nameless unnamed⟩
  | element items slot outer =>
    cases nested with
    | inside fits nested =>
      exact ⟨_, rfl, .inside fits nested, fun _ => rfl, .of_nameless unnamed⟩

namespace Arranged

/-- A writer is arranged before its first call. -/
theorem opening (seed : Option Document) : (Writer.opening seed).Arranged := by
  cases seed with
  | none => exact ⟨.outside, fun _ => rfl, .of_nameless rfl⟩
  | some entries => exact ⟨.outside, fun _ => rfl, .of_nameless rfl⟩

/-- Nothing is at the root where a value has a place. -/
theorem root_of_takesValue (arranged : writer.Arranged) (takes : writer.takesValue = true) :
    writer.root = none := by
  cases scopes : writer.stack with
  | nil =>
    rw [takesValue, scopes] at takes
    exact Option.isNone_iff_eq_none.mp takes
  | cons frame outer => exact arranged.rootless (by simp [scopes])

/-- A step that begins a value is answered where what it does next is. -/
theorem begins (arranged : writer.Arranged) {next : Slot → WriteM Unit}
    (accepted : writer.slot.Fits writer.stack → writer.root = none →
      ∃ after, perform (next writer.slot) writer.nameless = (.ok (), after) ∧ after.Arranged) :
    writer.Answers (beginValue >>= next) := by
  cases takes : writer.takesValue with
  | true =>
    left
    rw [perform_bind_ok (perform_beginValue arranged.settled takes)]
    exact accepted (slot_fits takes) (arranged.root_of_takesValue takes)
  | false =>
    right
    obtain ⟨fault, placed, refused⟩ := perform_beginValue_refused takes
    exact ⟨fault, placed, perform_bind_error refused next⟩

/-- A new scope stands in the others. -/
theorem scope (arranged : writer.Arranged) (rootless : writer.root = none) (frame : Frame)
    (fits : frame.slot.Fits writer.stack) (seed : Option Document) :
    Arranged ⟨frame :: writer.stack, none, writer.root, seed⟩ :=
  ⟨.inside fits arranged.nested, fun _ => rootless, .of_nameless rfl⟩

/-- The start of a document is answered. -/
theorem startDocument (arranged : writer.Arranged) : writer.Answers Writer.startDocument := by
  refine arranged.begins fun fits rootless => ?_
  -- Only the slot of the whole value uses up the seed.
  cases slot : writer.slot <;>
    exact ⟨_, rfl, arranged.scope rootless (.document _ _) (slot ▸ fits) _⟩

/-- The start of an array is answered. -/
theorem startArray (arranged : writer.Arranged) : writer.Answers Writer.startArray :=
  arranged.begins fun fits rootless =>
    ⟨_, rfl, arranged.scope rootless (.array [] writer.slot) fits _⟩

/-- A whole value is answered. -/
theorem writeValue (arranged : writer.Arranged) (content : Bson) :
    writer.Answers (Writer.writeValue content) :=
  arranged.begins fun fits rootless =>
    @finishValue_fits writer.nameless _ arranged.nested rfl rootless fits content

/-- The end of a document is answered. -/
theorem endDocument (arranged : writer.Arranged) : writer.Answers Writer.endDocument := by
  obtain ⟨stack, pending, root, seed⟩ := writer
  match stack, pending with
  | _, some name => exact .inr ⟨.nameWithoutValue name, by simp, rfl⟩
  | [], none => exact .inr ⟨.endOfDocumentWithoutStart, by simp, rfl⟩
  | .array items slot :: outer, none => exact .inr ⟨.endOfDocumentInsideArray, by simp, rfl⟩
  | .document entries slot :: outer, none =>
    have rootless : root = none := arranged.rootless (by simp)
    cases arranged.nested with
    | inside fits nested =>
      exact .inl (@finishValue_fits ⟨outer, none, root, seed⟩ slot nested rfl rootless fits _)

/-- The end of an array is answered; no name waits there. -/
theorem endArray (arranged : writer.Arranged) : writer.Answers Writer.endArray := by
  obtain ⟨stack, pending, root, seed⟩ := writer
  match stack with
  | [] => exact .inr ⟨.endOfArrayWithoutStart, by simp, rfl⟩
  | .document entries slot :: outer => exact .inr ⟨.endOfArrayInsideDocument, by simp, rfl⟩
  | .array items slot :: outer =>
    have rootless : root = none := arranged.rootless (by simp)
    have unnamed : pending = none := arranged.settled.resolve_right (by simp)
    cases arranged.nested with
    | inside fits nested =>
      exact .inl
        (@finishValue_fits ⟨outer, pending, root, seed⟩ slot nested unnamed rootless fits _)

/-- A name is refused, or it waits for its value in a document. -/
theorem perform_writeName (arranged : writer.Arranged) (label : String) :
    (∃ after, perform (Writer.writeName label) writer = (.ok (), after) ∧ after.Arranged ∧
      after.takesValue = true) ∨
    ∃ fault, (∀ slot, fault ≠ .misplaced slot) ∧
      perform (Writer.writeName label) writer = (.error (.invalidState fault), writer) := by
  obtain ⟨stack, pending, root, seed⟩ := writer
  match stack, pending with
  | [], _ => exact .inr ⟨.nameOutsideDocument label, by simp, rfl⟩
  | .array items slot :: outer, _ => exact .inr ⟨.nameOutsideDocument label, by simp, rfl⟩
  | .document entries slot :: outer, some name =>
    exact .inr ⟨.nameWhilePending label name, by simp, rfl⟩
  | .document entries slot :: outer, none =>
    exact .inl ⟨_, rfl, ⟨arranged.nested, arranged.rootless, .inr ⟨entries, slot, outer, rfl⟩⟩, rfl⟩

/-- A name with its value is answered: where the name is accepted, the value is as well. -/
theorem writeField (arranged : writer.Arranged) (label : String) (content : Bson) :
    writer.Answers (Writer.writeField label content) := by
  rcases arranged.perform_writeName label with
    ⟨named, name, known, takes⟩ | ⟨fault, placed, refused⟩
  · have begun := perform_beginValue known.settled takes
    have rootless := known.root_of_takesValue takes
    have fits := slot_fits takes
    left
    rw [Writer.writeField, perform_bind_ok name, Writer.writeValue, perform_bind_ok begun]
    exact @finishValue_fits named.nameless _ known.nested rfl rootless fits content
  · right
    exact ⟨fault, placed, perform_bind_error refused _⟩

/-- Every request is answered. -/
theorem answers (arranged : writer.Arranged) (request : Request) :
    writer.Answers request.step := by
  cases request with
  | field label content => exact arranged.writeField label content
  | call made =>
    cases made with
    | startDocument => exact arranged.startDocument
    | endDocument => exact arranged.endDocument
    | startArray => exact arranged.startArray
    | endArray => exact arranged.endArray
    | value content => exact arranged.writeValue content
    | name label =>
      refine (arranged.perform_writeName label).imp_left ?_
      rintro ⟨named, name, known, -⟩
      exact ⟨named, name, known⟩

/-- Every request leaves a writer arranged. -/
theorem step (arranged : writer.Arranged) (request : Request) :
    (perform request.step writer).2.Arranged := by
  rcases arranged.answers request with ⟨next, accepted, known⟩ | ⟨fault, -, refused⟩
  · rw [accepted]
    exact known
  · rw [refused]
    exact arranged

/-- Requests leave a writer arranged. -/
theorem after (arranged : writer.Arranged) (requests : List Request) :
    (writer.after requests).Arranged := by
  induction requests generalizing writer with
  | nil => exact arranged
  | cons request later ih => exact ih (arranged.step request)

end Arranged

/-- After any requests to a new or seeded writer, accepted or refused, the parts of the writer fit
together, and the next request is accepted, or it is refused and changes nothing; it is never
refused for want of a place for a finished value. -/
theorem requests_atomic (seed : Option Document) (requests : List Request) (request : Request) :
    let writer := (opening seed).after requests
    writer.Arranged ∧ ((perform request.step writer).1 = .ok () ∨
      ∃ fault, (∀ slot, fault ≠ .misplaced slot) ∧
        perform request.step writer = (.error (.invalidState fault), writer)) := by
  have arranged := (Arranged.opening seed).after requests
  refine ⟨arranged, (arranged.answers request).imp_left ?_⟩
  rintro ⟨next, accepted, -⟩
  rw [accepted]

end Writer

end EntityMapping
