import EntityMapping.Proofs.Stream.Grammar
/-!
# Steps that act as whole values

A step that opens a scope, fills it and closes it has the effect of writing the
finished value at once, from every writer that calls can lead to: where no value may
be written both are refused alike, and the writer stays as it was. Only a seeded
writer whose root is still to be opened tells the two apart, since its seed goes into
a document that is opened and not into one that is written whole.

`Represents` says this of a step. Its rules follow the ways in which steps are put
together, so that nothing later has to look into a writer.
-/

namespace EntityMapping.Writer

/-- A writer after calls, accepted or refused, on one that was new or seeded. -/
inductive Reached : Writer → Prop where
  /-- A new writer. -/
  | fresh : Reached empty
  /-- A seeded writer. -/
  | seed (entries : Document) : Reached (seeded entries)
  /-- A writer after one more call. -/
  | call {writer : Writer} (reached : Reached writer) (call : Call) :
    Reached (perform call.step writer).2

/-- A seeded writer whose root is still to be opened. -/
def Unopened (writer : Writer) : Prop :=
  writer.stack = [] ∧ writer.root = none ∧ writer.seed ≠ none

/-- Whether the next value has a place. -/
def takesValue (writer : Writer) : Bool :=
  match writer.stack with
  | .document _ _ :: _ => writer.pendingName.isSome
  | .array _ _ :: _ => true
  | [] => writer.root.isNone

/-- A writer in which a name waits for its value only inside a document. -/
def Settled (writer : Writer) : Prop :=
  writer.pendingName = none ∨
    ∃ entries slot outer, writer.stack = .document entries slot :: outer

/-- The writer with its pending name used up. -/
def nameless (writer : Writer) : Writer := { writer with pendingName := none }

/-- The writer inside a scope that stands for its next value. -/
def inside (writer : Writer) (scope : Frame) : Writer :=
  { writer with stack := scope :: writer.stack, pendingName := none }

variable {writer : Writer}

/-- A writer without a pending name is settled. -/
theorem Settled.of_nameless (none : writer.pendingName = none) : writer.Settled := .inl none

/-- Where the next value has a place, its slot is found and its name is used up. -/
theorem perform_beginValue (settled : writer.Settled) (takes : writer.takesValue = true) :
    perform beginValue writer = (.ok writer.slot, writer.nameless) := by
  obtain ⟨stack, pending, root, seed⟩ := writer
  have unnamed : (∀ entries slot outer, stack ≠ .document entries slot :: outer) →
      pending = none := by
    intro other
    rcases settled with none | ⟨entries, slot, outer, same⟩
    · exact none
    · exact absurd same (other entries slot outer)
  match stack, pending with
  | .document entries slot :: outer, some name => rfl
  | .document entries slot :: outer, none => cases takes
  | .array items slot :: outer, pending =>
    obtain rfl := unnamed (by simp)
    rfl
  | [], pending =>
    obtain rfl := unnamed (by simp)
    obtain rfl : root = none := Option.isNone_iff_eq_none.mp takes
    rfl

/-- Where the next value has no place, it is refused and the writer stays as it was. -/
theorem perform_beginValue_refused (takes : writer.takesValue = false) :
    ∃ fault, (∀ slot, fault ≠ .misplaced slot) ∧
      perform beginValue writer = (.error (.invalidState fault), writer) := by
  obtain ⟨stack, pending, root, seed⟩ := writer
  match stack, pending, root with
  | .document entries slot :: outer, none, root => exact ⟨.valueWithoutName, by simp, rfl⟩
  | .document entries slot :: outer, some name, root => cases takes
  | .array items slot :: outer, pending, root => cases takes
  | [], pending, some content => exact ⟨.rootAlreadyWritten, by simp, rfl⟩
  | [], pending, none => cases takes

/-- A value has a place for what it is finished as. -/
theorem perform_finishValue (takes : writer.takesValue = true) (content : Bson) :
    ∃ after, perform (finishValue writer.slot content) writer.nameless = (.ok (), after) := by
  obtain ⟨stack, pending, root, seed⟩ := writer
  match stack, pending with
  | .document entries slot :: outer, some name => exact ⟨_, rfl⟩
  | .document entries slot :: outer, none => cases takes
  | .array items slot :: outer, pending => exact ⟨_, rfl⟩
  | [], pending => exact ⟨_, rfl⟩

/-- Finishing a value leaves the pending name alone. -/
theorem finishValue_pendingName (slot : Slot) (content : Bson) :
    (perform (finishValue slot content) writer).2.pendingName = writer.pendingName := by
  obtain ⟨stack, pending, root, seed⟩ := writer
  match slot, stack with
  | .field name, .document entries place :: rest => rfl
  | .field name, .array items place :: rest => rfl
  | .field name, [] => rfl
  | .element, .array items place :: rest => rfl
  | .element, .document entries place :: rest => rfl
  | .element, [] => rfl
  | .root, [] => rfl
  | .root, frame :: rest => rfl

/-- A step that begins a value and leaves no pending name keeps a writer settled. -/
theorem Settled.begins (settled : writer.Settled) {next : Slot → WriteM Unit}
    (clears : (perform (next writer.slot) writer.nameless).2.pendingName = none) :
    (perform (beginValue >>= next) writer).2.Settled := by
  cases takes : writer.takesValue with
  | true =>
    rw [perform_bind_ok (perform_beginValue settled takes)]
    exact .of_nameless clears
  | false =>
    obtain ⟨fault, -, refused⟩ := perform_beginValue_refused takes
    rw [perform_bind_error refused]
    exact settled

/-- Closing a document keeps a writer settled. -/
theorem Settled.endDocument (settled : writer.Settled) :
    (perform Writer.endDocument writer).2.Settled := by
  obtain ⟨stack, pending, root, seed⟩ := writer
  match stack, pending with
  | _, some name => exact settled
  | [], none => exact settled
  | .array items slot :: outer, none => exact settled
  | .document entries slot :: outer, none =>
    exact .of_nameless (@finishValue_pendingName ⟨outer, none, root, seed⟩ slot _)

/-- Closing an array keeps a writer settled. -/
theorem Settled.endArray (settled : writer.Settled) :
    (perform Writer.endArray writer).2.Settled := by
  obtain ⟨stack, pending, root, seed⟩ := writer
  match stack with
  | [] => exact settled
  | .document entries slot :: outer => exact settled
  | .array items slot :: outer =>
    have unnamed : pending = none := settled.resolve_right (by simp)
    have kept := @finishValue_pendingName ⟨outer, pending, root, seed⟩ slot
    exact .of_nameless ((kept _).trans unnamed)

/-- Naming the next value keeps a writer settled. -/
theorem Settled.writeName (settled : writer.Settled) (label : String) :
    (perform (Writer.writeName label) writer).2.Settled := by
  obtain ⟨stack, pending, root, seed⟩ := writer
  match stack, pending with
  | [], _ => exact settled
  | .array items slot :: outer, _ => exact settled
  | .document entries slot :: outer, some name => exact settled
  | .document entries slot :: outer, none => exact .inr ⟨entries, slot, outer, rfl⟩

/-- Every call keeps a writer settled. -/
theorem Settled.step (settled : writer.Settled) (call : Call) :
    (perform call.step writer).2.Settled := by
  cases call with
  | startDocument =>
    refine settled.begins ?_
    cases writer.slot <;> rfl
  | startArray => exact settled.begins rfl
  | value content => exact settled.begins (finishValue_pendingName writer.slot content)
  | endDocument => exact settled.endDocument
  | endArray => exact settled.endArray
  | name label => exact settled.writeName label

/-- Calls lead to settled writers only. -/
theorem Reached.settled (reached : writer.Reached) : writer.Settled := by
  induction reached with
  | fresh => exact .of_nameless rfl
  | seed => exact .of_nameless rfl
  | call _ call ih => exact ih.step call

/-- A step that has the effect of writing a value, also where that is refused. -/
def Represents (action : WriteM Unit) (content : Bson) : Prop :=
  ∀ writer : Writer, writer.Settled → ¬ writer.Unopened →
    perform action writer = perform (writeValue content) writer

/-- A value written at once. -/
theorem Represents.value (content : Bson) : Represents (writeValue content) content :=
  fun _ _ _ => rfl

/-- A step that adds pairs to an open document. -/
def AddsEntries (body : WriteM Unit) (pairs : List (String × Bson)) : Prop :=
  ∀ (outer : Writer) entries slot, perform body (outer.inside (.document entries slot)) =
    (.ok (), outer.inside (.document (Keyed.overlay entries pairs) slot))

/-- A step that adds items to an open array. -/
def AddsItems (body : WriteM Unit) (added : List Bson) : Prop :=
  ∀ (outer : Writer) items slot, perform body (outer.inside (.array items slot)) =
    (.ok (), outer.inside (.array (items ++ added) slot))

namespace AddsEntries

variable {body next : WriteM Unit} {pairs more : List (String × Bson)} {content : Bson}

/-- Nothing is added. -/
theorem nil : AddsEntries (pure ()) [] :=
  fun _ _ _ => rfl

/-- A name with a value. -/
theorem named (label : String) (represents : Represents body content) :
    AddsEntries (writeName label >>= fun _ => body) [(label, content)] := by
  intro outer entries slot
  let behind : Writer := { outer.inside (.document entries slot) with pendingName := some label }
  have name : perform (writeName label) (outer.inside (.document entries slot)) =
      (.ok (), behind) := rfl
  have settled : behind.Settled := .inr ⟨entries, slot, outer.stack, rfl⟩
  have opened : ¬ behind.Unopened := fun unopened => by cases unopened.1
  rw [perform_bind_ok name, represents behind settled opened]
  rfl

/-- A name with a value written at once. -/
theorem field (label : String) (content : Bson) :
    AddsEntries (writeField label content) [(label, content)] :=
  named label (.value content)

/-- What is added by two steps in order. -/
theorem append (first : AddsEntries body pairs) (second : AddsEntries next more) :
    AddsEntries (body >>= fun _ => next) (pairs ++ more) := by
  intro outer entries slot
  rw [perform_bind_ok (first outer entries slot), second, Keyed.overlay, Keyed.overlay,
    Keyed.overlay, List.foldl_append]

end AddsEntries

namespace AddsItems

variable {body next : WriteM Unit} {added more : List Bson} {content : Bson}

/-- Nothing is added. -/
theorem nil : AddsItems (pure ()) [] :=
  fun outer items slot => by rw [List.append_nil, perform_pure]

/-- A value. -/
theorem item (represents : Represents body content) : AddsItems body [content] := by
  intro outer items slot
  have settled : (outer.inside (.array items slot)).Settled := .of_nameless rfl
  have opened : ¬ (outer.inside (.array items slot)).Unopened := fun unopened => by
    cases unopened.1
  rw [represents _ settled opened]
  rfl

/-- What is added by two steps in order. -/
theorem append (first : AddsItems body added) (second : AddsItems next more) :
    AddsItems (body >>= fun _ => next) (added ++ more) := by
  intro outer items slot
  rw [perform_bind_ok (first outer items slot), second, List.append_assoc]

end AddsItems

/-- Where a document may be opened, it starts empty. -/
theorem perform_startDocument_inside (settled : writer.Settled) (opened : ¬ writer.Unopened)
    (takes : writer.takesValue = true) :
    perform startDocument writer = (.ok (), writer.inside (.document [] writer.slot)) := by
  rw [startDocument, perform_bind_ok (perform_beginValue settled takes)]
  obtain ⟨stack, pending, root, seed⟩ := writer
  match stack, pending with
  | .document entries slot :: outer, some name => rfl
  | .document entries slot :: outer, none => cases takes
  | .array items slot :: outer, pending => rfl
  | [], pending =>
    obtain rfl : root = none := Option.isNone_iff_eq_none.mp takes
    have unseeded : seed = none := by
      by_contra seeded
      exact opened ⟨rfl, rfl, seeded⟩
    rw [unseeded]
    rfl

/-- Where an array may be opened, it starts empty. -/
theorem perform_startArray_inside (settled : writer.Settled) (takes : writer.takesValue = true) :
    perform startArray writer = (.ok (), writer.inside (.array [] writer.slot)) := by
  rw [startArray, perform_bind_ok (perform_beginValue settled takes)]
  rfl

/-- A closed document is finished as a value in its slot. -/
theorem perform_endDocument_inside (entries : Document) (slot : Slot) :
    perform endDocument (writer.inside (.document entries slot)) =
      perform (finishValue slot (.document entries)) writer.nameless := rfl

/-- A closed array is finished as a value in its slot. -/
theorem perform_endArray_inside (items : List Bson) (slot : Slot) :
    perform endArray (writer.inside (.array items slot)) =
      perform (finishValue slot (.array items)) writer.nameless := rfl

namespace Represents

variable {body : WriteM Unit} {pairs : List (String × Bson)} {items : List Bson}
  {content : Bson}

/-- A document around its entries. -/
theorem document (adds : AddsEntries body pairs) :
    Represents (inDocument body) (.document (Keyed.ofPairs pairs)) := by
  intro writer settled opened
  cases takes : writer.takesValue with
  | true =>
    have starts := perform_startDocument_inside settled opened takes
    have fills := adds writer [] writer.slot
    rw [inDocument, perform_bind_ok starts, perform_bind_ok fills, perform_endDocument_inside,
      writeValue, perform_bind_ok (perform_beginValue settled takes), Keyed.ofPairs]
  | false =>
    obtain ⟨fault, -, refused⟩ := perform_beginValue_refused takes
    have stays : perform startDocument writer = (.error (.invalidState fault), writer) :=
      perform_bind_error refused _
    rw [inDocument, perform_bind_error stays, writeValue, perform_bind_error refused]

/-- A document around entries with distinct names. -/
theorem distinctDocument {entries : Document} (adds : AddsEntries body entries)
    (distinct : Keyed.Distinct entries) : Represents (inDocument body) (.document entries) := by
  have document := document adds
  rwa [Keyed.ofPairs_distinct distinct] at document

/-- An array around its items. -/
theorem array (adds : AddsItems body items) : Represents (inArray body) (.array items) := by
  intro writer settled opened
  cases takes : writer.takesValue with
  | true =>
    have starts := perform_startArray_inside settled takes
    have fills := adds writer [] writer.slot
    rw [inArray, perform_bind_ok starts, perform_bind_ok fills, perform_endArray_inside,
      writeValue, perform_bind_ok (perform_beginValue settled takes), List.nil_append]
  | false =>
    obtain ⟨fault, -, refused⟩ := perform_beginValue_refused takes
    have stays : perform startArray writer = (.error (.invalidState fault), writer) :=
      perform_bind_error refused _
    rw [inArray, perform_bind_error stays, writeValue, perform_bind_error refused]

/-- A new writer takes the value as its root. -/
theorem perform_empty (represents : Represents body content) :
    body.run.run empty = (.ok (), { empty with root := some content }) := by
  have opened : ¬ empty.Unopened := fun unopened => unopened.2.2 rfl
  exact represents empty (.of_nameless rfl) opened

/-- What a new writer is given alone is the whole value. -/
theorem valueOf_eq (represents : Represents body content) : valueOf body = .ok content := by
  rw [valueOf, represents.perform_empty]
  rfl

end Represents

/-- A step that cannot be told from writing a value at once, by any writer that calls can lead
to; only a seeded writer whose root is still to be opened is left out. -/
structure ActsAs (action : WriteM Unit) (content : Bson) : Prop where
  /-- The outcome and the writer after it are the same. -/
  same : ∀ writer : Writer, writer.Reached → ¬ writer.Unopened →
    perform action writer = perform (writeValue content) writer
  /-- Where the value has a place, the step succeeds. -/
  accepted : ∀ writer : Writer, writer.Reached → ¬ writer.Unopened →
    writer.takesValue = true → ∃ after, perform action writer = (.ok (), after)
  /-- Where the value has no place, the step fails and the writer stays as it was. -/
  refused : ∀ writer : Writer, writer.Reached → ¬ writer.Unopened →
    writer.takesValue = false → ∃ cause, perform action writer = (.error cause, writer)

/-- A step that represents a value acts as one. -/
theorem Represents.actsAs {action : WriteM Unit} {content : Bson}
    (represents : Represents action content) : ActsAs action content where
  same writer reached opened := represents writer reached.settled opened
  accepted writer reached opened takes := by
    have begun := perform_beginValue reached.settled takes
    have writes := perform_finishValue takes content
    rwa [represents writer reached.settled opened, writeValue, perform_bind_ok begun]
  refused writer reached opened takes := by
    obtain ⟨fault, -, refused⟩ := perform_beginValue_refused takes
    refine ⟨.invalidState fault, ?_⟩
    rw [represents writer reached.settled opened, writeValue, perform_bind_error refused]

end EntityMapping.Writer
