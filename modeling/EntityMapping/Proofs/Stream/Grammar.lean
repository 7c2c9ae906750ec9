import EntityMapping.Proofs.Keyed.Settling
import EntityMapping.Proofs.Stream.Places
/-!
# The calls a writer accepts

The calls that write one value form a language: a whole value, or a start and an
end around the entries of a document or the items of an array. A writer checks
each call against its innermost scope only; together the checks accept just the
words of the language, and the writer ends with the value the word stands for.
-/

namespace EntityMapping

namespace Writer

/-- A call to a writer. -/
inductive Call where
  /-- Open a document. -/
  | startDocument
  /-- Close a document. -/
  | endDocument
  /-- Open an array. -/
  | startArray
  /-- Close an array. -/
  | endArray
  /-- Name the next value. -/
  | name (label : String)
  /-- Write a whole value. -/
  | value (content : Bson)

/-- The step a call takes. -/
def Call.step : Call → WriteM Unit
  | startDocument => Writer.startDocument
  | endDocument => Writer.endDocument
  | startArray => Writer.startArray
  | endArray => Writer.endArray
  | name label => writeName label
  | value content => writeValue content

/-- Make calls one after another until one is refused. -/
def feed : List Call → WriteM Unit
  | [] => pure ()
  | call :: later => do
    call.step
    feed later

mutual

/-- Calls that write one value, and the value. -/
inductive IsValue : List Call → Bson → Prop where
  /-- A value written whole. -/
  | value (content : Bson) : IsValue [.value content] content
  /-- A document around its entries. -/
  | document {body : List Call} {pairs : List (String × Bson)} {entries : Document}
    (written : IsEntries body pairs) (settles : Keyed.Settles pairs entries) :
    IsValue (.startDocument :: body ++ [.endDocument]) (.document entries)
  /-- An array around its items. -/
  | array {body : List Call} {items : List Bson} (written : IsItems body items) :
    IsValue (.startArray :: body ++ [.endArray]) (.array items)

/-- Calls that write names with their values, and the pairs written. -/
inductive IsEntries : List Call → List (String × Bson) → Prop where
  /-- No entry. -/
  | none : IsEntries [] []
  /-- A name and its value behind other entries. -/
  | more {before body : List Call} {pairs : List (String × Bson)} {content : Bson}
    (written : IsEntries before pairs) (label : String) (next : IsValue body content) :
    IsEntries (before ++ .name label :: body) (pairs ++ [(label, content)])

/-- Calls that write values one after another, and the values. -/
inductive IsItems : List Call → List Bson → Prop where
  /-- No item. -/
  | none : IsItems [] []
  /-- A value behind other items. -/
  | more {before body : List Call} {items : List Bson} {content : Bson}
    (written : IsItems before items) (next : IsValue body content) :
    IsItems (before ++ body) (items ++ [content])

end

/-! ## Every word is accepted -/

/-- Calls in two parts: the second is made where the first leaves the writer. -/
theorem perform_feed_append {before : List Call} {writer middle : Writer}
    (accepted : perform (feed before) writer = (.ok (), middle)) (after : List Call) :
    perform (feed (before ++ after)) writer = perform (feed after) middle := by
  induction before generalizing writer with
  | nil =>
    obtain rfl : writer = middle := congrArg Prod.snd accepted
    rfl
  | cons call later ih =>
    rw [feed, perform_bind] at accepted
    rw [List.cons_append, feed, perform_bind]
    rcases stepped : perform call.step writer with ⟨refused | done, next⟩
    · simp [stepped] at accepted
    · rw [stepped] at accepted
      exact ih accepted

/-- A single call is its step. -/
theorem perform_feed_singleton (call : Call) (writer : Writer) :
    perform (feed [call]) writer = perform call.step writer := by
  rw [feed, perform_bind]
  rcases perform call.step writer with ⟨refused | done, next⟩ <;> rfl

/-- A first call and what is made after it. -/
theorem perform_feed_cons {call : Call} {writer middle : Writer}
    (accepted : perform call.step writer = (.ok (), middle)) (later : List Call) :
    perform (feed (call :: later)) writer = perform (feed later) middle := by
  rw [feed, perform_bind_ok accepted]

-- The three lemmas go by induction on the word. What stands inside a scope is accepted where
-- its start leaves the writer, and its end puts the scope where the writer was ready before.
mutual

/-- A word is accepted wherever a value may be written, and puts its value there. -/
theorem IsValue.perform_feed {calls : List Call} {content : Bson} {writer : Writer}
    (ready : writer.Ready) : IsValue calls content →
      perform (feed calls) writer = (.ok (), writer.place content)
  | .value content => by
    rw [perform_feed_singleton]
    exact perform_writeValue ready content
  | .document written settles => by
    have opened : perform Call.startDocument.step writer = _ := perform_startDocument ready
    have inside := IsEntries.perform_feed [] writer.slot writer.stack writer.root written
    rw [List.cons_append, perform_feed_cons opened, perform_feed_append inside,
      perform_feed_singleton, settles.eq_ofPairs]
    exact perform_endDocument ready _
  | .array written => by
    have opened : perform Call.startArray.step writer = _ := perform_startArray ready
    have inside := IsItems.perform_feed [] writer.slot writer.stack writer.root written
    rw [List.cons_append, perform_feed_cons opened, perform_feed_append inside,
      perform_feed_singleton]
    exact perform_endArray ready _

/-- Entries are accepted inside a document and stored there one after another. -/
theorem IsEntries.perform_feed {calls : List Call} {pairs : List (String × Bson)}
    (entries : Document) (slot : Slot) (outer : List Frame) (root : Option Bson) :
    IsEntries calls pairs → perform (feed calls) (within entries slot outer root) =
      (.ok (), within (Keyed.overlay entries pairs) slot outer root)
  | .none => rfl
  | @IsEntries.more _ _ pairs _ written label next => by
    have first := IsEntries.perform_feed entries slot outer root written
    have named : perform (Call.name label).step
        (within (Keyed.overlay entries pairs) slot outer root) = _ :=
      perform_writeName label _ slot outer root
    rw [perform_feed_append first, perform_feed_cons named,
      IsValue.perform_feed (.field label _ slot outer root) next]
    simp only [Keyed.overlay, List.foldl_append, List.foldl_cons, List.foldl_nil]
    rfl

/-- Items are accepted inside an array and go to its end one after another. -/
theorem IsItems.perform_feed {calls : List Call} {items : List Bson} (before : List Bson)
    (slot : Slot) (outer : List Frame) (root : Option Bson) :
    IsItems calls items → perform (feed calls) (among before slot outer root) =
      (.ok (), among (before ++ items) slot outer root)
  | .none => by
    rw [List.append_nil]
    rfl
  | .more written next => by
    have first := IsItems.perform_feed before slot outer root written
    rw [perform_feed_append first, IsValue.perform_feed (.element _ slot outer root) next,
      ← List.append_assoc]
    rfl

end

/-! ## Only words are accepted -/

/-- The calls made so far, read off the writer they lead to. -/
inductive Leads : List Call → Writer → Prop where
  /-- No call. -/
  | start : Leads [] empty
  /-- A document was opened where a value may be written, and entries were written. -/
  | document {before body : List Call} {writer : Writer} {pairs : List (String × Bson)}
    (leads : Leads before writer) (ready : writer.Ready) (written : IsEntries body pairs) :
    Leads (before ++ .startDocument :: body)
      (within (Keyed.ofPairs pairs) writer.slot writer.stack writer.root)
  /-- An array was opened where a value may be written, and items were written. -/
  | array {before body : List Call} {writer : Writer} {items : List Bson}
    (leads : Leads before writer) (ready : writer.Ready) (written : IsItems body items) :
    Leads (before ++ .startArray :: body) (among items writer.slot writer.stack writer.root)
  /-- A name was written inside a document. -/
  | name {calls : List Call} {entries : Document} {slot : Slot} {outer : List Frame}
    {root : Option Bson} (leads : Leads calls (within entries slot outer root))
    (label : String) :
    Leads (calls ++ [.name label]) { within entries slot outer root with pendingName := some label }
  /-- The whole value was written. -/
  | finish {calls : List Call} {content : Bson} (word : IsValue calls content) :
    Leads calls (empty.place content)

/-- A value written where one may be written takes its place among what was written. -/
theorem Leads.place {before body : List Call} {writer : Writer} {content : Bson}
    (leads : Leads before writer) (ready : writer.Ready) (word : IsValue body content) :
    Leads (before ++ body) (writer.place content) := by
  -- Where the writer is ready tells which calls led there, and so what the value continues.
  cases ready with
  | root =>
    cases leads with
    | start => exact .finish word
  | field label entries slot outer root =>
    cases leads with
    | name leads label =>
      cases leads with
      | document leads ready written =>
        have longer := Leads.document leads ready (written.more label word)
        rw [Keyed.ofPairs_append] at longer
        simp only [List.append_assoc, List.cons_append, List.nil_append]
        exact longer
  | element items slot outer root =>
    cases leads with
    | array leads ready written =>
      have longer := Leads.array leads ready (written.more word)
      simp only [List.append_assoc, List.cons_append]
      exact longer

/-- A writer that may not take a value refuses to begin one. -/
theorem Leads.beginValue {calls : List Call} {writer : Writer} (leads : Leads calls writer) :
    writer.Ready ∨ ∃ cause, perform Writer.beginValue writer = (.error cause, writer) := by
  cases leads with
  | start => exact .inl .root
  | document => exact .inr ⟨.invalidState .valueWithoutName, rfl⟩
  | array => exact .inl (.element _ _ _ _)
  | name => exact .inl (.field _ _ _ _ _)
  | finish => exact .inr ⟨.invalidState .rootAlreadyWritten, rfl⟩

/-- A closed document is a value at the place it was opened for. -/
theorem Leads.endDocument {calls : List Call} {writer after : Writer}
    (leads : Leads calls writer)
    (accepted : perform Writer.endDocument writer = (.ok (), after)) :
    Leads (calls ++ [.endDocument]) after := by
  cases leads with
  | start => cases accepted
  | document leads ready written =>
    rename_i before body writer pairs
    have closed := perform_endDocument ready (Keyed.ofPairs pairs)
    obtain rfl : writer.place _ = after := congrArg Prod.snd (closed.symm.trans accepted)
    have longer := leads.place ready (.document written (Keyed.settles_ofPairs pairs))
    simpa only [List.append_assoc, List.cons_append] using longer
  | array => cases accepted
  | name => cases accepted
  | finish => cases accepted

/-- A closed array is a value at the place it was opened for. -/
theorem Leads.endArray {calls : List Call} {writer after : Writer} (leads : Leads calls writer)
    (accepted : perform Writer.endArray writer = (.ok (), after)) :
    Leads (calls ++ [.endArray]) after := by
  cases leads with
  | start => cases accepted
  | document => cases accepted
  | array leads ready written =>
    rename_i before body writer items
    have closed := perform_endArray ready items
    obtain rfl : writer.place _ = after := congrArg Prod.snd (closed.symm.trans accepted)
    have longer := leads.place ready (.array written)
    simpa only [List.append_assoc, List.cons_append] using longer
  | name => cases accepted
  | finish => cases accepted

/-- A name is accepted where an entry may begin, and nowhere else. -/
theorem Leads.writeName {calls : List Call} {writer after : Writer}
    (leads : Leads calls writer) {label : String}
    (accepted : perform (Writer.writeName label) writer = (.ok (), after)) :
    Leads (calls ++ [.name label]) after := by
  cases leads with
  | start => cases accepted
  | document leads ready written =>
    obtain rfl : _ = after := congrArg Prod.snd accepted
    exact .name (.document leads ready written) label
  | array => cases accepted
  | name => cases accepted
  | finish => cases accepted

/-- An accepted call leads on. -/
theorem Leads.step {calls : List Call} {writer after : Writer} (leads : Leads calls writer)
    {call : Call} (accepted : perform call.step writer = (.ok (), after)) :
    Leads (calls ++ [call]) after := by
  -- The three calls that begin a value are refused alike where no value may be written.
  have begins {next : Slot → WriteM Unit} (ran : perform (Writer.beginValue >>= next) writer =
      (.ok (), after)) : writer.Ready := by
    rcases leads.beginValue with ready | ⟨cause, refused⟩
    · exact ready
    · rw [perform_bind_error refused] at ran
      cases ran
  cases call with
  | startDocument =>
    have ready := begins accepted
    have opened := perform_startDocument ready
    obtain rfl : within [] _ _ _ = after := congrArg Prod.snd (opened.symm.trans accepted)
    exact .document leads ready .none
  | endDocument => exact leads.endDocument accepted
  | startArray =>
    have ready := begins accepted
    have opened := perform_startArray ready
    obtain rfl : among [] _ _ _ = after := congrArg Prod.snd (opened.symm.trans accepted)
    exact .array leads ready .none
  | endArray => exact leads.endArray accepted
  | name label => exact leads.writeName accepted
  | value content =>
    have ready := begins accepted
    have written := perform_writeValue ready content
    obtain rfl : writer.place _ = after := congrArg Prod.snd (written.symm.trans accepted)
    exact leads.place ready (.value content)

/-- Calls that are all accepted lead on. -/
theorem Leads.feed {calls later : List Call} {writer after : Writer}
    (leads : Leads calls writer)
    (accepted : perform (Writer.feed later) writer = (.ok (), after)) :
    Leads (calls ++ later) after := by
  induction later generalizing calls writer with
  | nil =>
    obtain rfl : writer = after := congrArg Prod.snd accepted
    rwa [List.append_nil]
  | cons call rest ih =>
    rw [Writer.feed, perform_bind] at accepted
    rcases stepped : perform call.step writer with ⟨refused | done, next⟩
    · simp [stepped] at accepted
    · rw [stepped] at accepted
      have all := ih (leads.step stepped) accepted
      rwa [List.append_assoc, List.singleton_append] at all

/-- A writer that has a finished value was led there by a word for it. -/
theorem Leads.value? {calls : List Call} {writer : Writer} (leads : Leads calls writer)
    {content : Bson} (finished : writer.value? = .ok content) : IsValue calls content := by
  cases leads with
  | start => cases finished
  | document => cases finished
  | array => cases finished
  | name => cases finished
  | finish word =>
    cases finished
    exact word

/-- The value that calls write is the one their writer ends with. -/
theorem valueOf_eq (body : WriteM Unit) : valueOf body =
    match perform body empty with
    | (.ok _, writer) => writer.value?
    | (.error cause, _) => .error cause := rfl

/-- A fresh writer accepts just the calls that write one value, and ends with that value. -/
theorem valueOf_feed_iff (calls : List Call) (content : Bson) :
    valueOf (feed calls) = .ok content ↔ IsValue calls content := by
  constructor
  · intro written
    rw [valueOf_eq] at written
    rcases ran : perform (feed calls) empty with ⟨cause | done, writer⟩
    · rw [ran] at written
      cases written
    · rw [ran] at written
      exact (Leads.start.feed ran).value? written
  · intro word
    rw [valueOf_eq, word.perform_feed .root]
    rfl

example : valueOf (feed [.startDocument, .name "a", .value (.int32 1), .name "b",
    .value .null, .name "a", .value (.int32 2), .endDocument]) =
      .ok (.document [("a", .int32 2), ("b", .null)]) := rfl

end Writer

end EntityMapping
