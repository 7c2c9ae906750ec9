import EntityMapping.Mapper.Operations
import EntityMapping.Proofs.Encoding.Stored
import EntityMapping.Proofs.Stream.Places
/-!
# Writing gives the stored form

`Writes` says of an encoding step that from one writer it ends as a stored form
does, with the same effect on the session, and that a success leaves the writer in
a known state. Writing a value puts its stored form into the next place of any
writer that is ready; so `Mapper.toDocument` is the stored form of its entity, and
later proofs need no writer.
-/

namespace EntityMapping

/-- From a writer, a step ends as its stored form does, with the same effect on the
session; after a success the writer is the final one of the result. -/
def Writes {α : Type} (action : EncodeM Unit) (start : Writer) (final : α → Writer)
    (form : SessionM α) : Prop :=
  ∀ session, ∃ writer,
    perform action ⟨start, session⟩ =
      ((perform form session).1.map fun _ => (), ⟨writer, (perform form session).2⟩) ∧
    ∀ value, (perform form session).1 = .ok value → writer = final value

/-- A session step leaves the writer alone. -/
theorem Encoding.perform_ofSession {α : Type} (action : SessionM α) (writer : Writer)
    (session : Session) : perform (EncodeM.ofSession action) ⟨writer, session⟩ =
      ((perform action session).1, ⟨writer, (perform action session).2⟩) := rfl

namespace Writes

variable {α β : Type} {start : Writer}

/-- Nothing is written. -/
theorem pure (value : α) {final : α → Writer} (stays : final value = start) :
    Writes (Pure.pure ()) start final (Pure.pure value) := by
  intro session
  refine ⟨start, rfl, fun other succeeded => ?_⟩
  obtain rfl := Except.ok.inj succeeded
  exact stays.symm

/-- A failure may leave the writer in any state. -/
theorem throw (cause : MappingError) {final : α → Writer} :
    Writes (MonadExcept.throw cause) start final (MonadExcept.throw cause) :=
  fun _ => ⟨start, rfl, fun _ failed => by cases failed⟩

/-- The second step starts with the writer that the first one leaves. -/
theorem bind {first : EncodeM Unit} {second : Unit → EncodeM Unit} {middle : α → Writer}
    {final : β → Writer} {form : SessionM α} {formed : α → SessionM β}
    (one : Writes first start middle form)
    (other : ∀ value, Writes (second ()) (middle value) final (formed value)) :
    Writes (first >>= second) start final (form >>= formed) := by
  intro session
  obtain ⟨writer, ran, stands⟩ := one session
  rw [perform_bind, perform_bind, ran]
  rcases outcome : perform form session with ⟨cause | value, after⟩
  · exact ⟨writer, rfl, fun _ failed => by cases failed⟩
  · rw [stands value (by rw [outcome])]
    exact other value after

/-- A first step that succeeds without an effect on the session. -/
theorem andThen {first : EncodeM Unit} {second : Unit → EncodeM Unit} {middle : Writer}
    {final : α → Writer} {form : SessionM α}
    (one : ∀ session, perform first ⟨start, session⟩ = (.ok (), ⟨middle, session⟩))
    (other : Writes (second ()) middle final form) :
    Writes (first >>= second) start final form := by
  intro session
  rw [perform_bind_ok (one session)]
  exact other session

/-- A last step that succeeds without an effect on the session. -/
theorem thenLast {first last : EncodeM Unit} {middle final : α → Writer} {form : SessionM α}
    (one : Writes first start middle form)
    (other : ∀ value session,
      perform last ⟨middle value, session⟩ = (.ok (), ⟨final value, session⟩)) :
    Writes (first >>= fun _ => last) start final form := by
  intro session
  obtain ⟨writer, ran, stands⟩ := one session
  rw [perform_bind, ran]
  rcases outcome : perform form session with ⟨cause | value, after⟩
  · exact ⟨writer, rfl, fun _ failed => by cases failed⟩
  · rw [stands value (by rw [outcome])]
    refine ⟨final value, other value after, fun result succeeded => ?_⟩
    obtain rfl := Except.ok.inj succeeded
    rfl

/-- A function of the result. -/
theorem map {action : EncodeM Unit} {final : β → Writer} {form : SessionM α} (change : α → β)
    (writes : Writes action start (fun value => final (change value)) form) :
    Writes action start final (change <$> form) := by
  intro session
  obtain ⟨writer, ran, stands⟩ := writes session
  rw [perform_map]
  rcases outcome : perform form session with ⟨cause | value, after⟩
  · rw [outcome] at ran
    exact ⟨writer, ran, fun _ failed => by cases failed⟩
  · rw [outcome] at ran stands
    refine ⟨writer, ran, fun result succeeded => ?_⟩
    obtain rfl := Except.ok.inj succeeded
    exact stands value rfl

/-- A computation comes first. -/
theorem bindExcept {next : α → EncodeM Unit} {final : β → Writer} {formed : α → SessionM β}
    (outcome : Except MappingError α)
    (other : ∀ value, outcome = .ok value → Writes (next value) start final (formed value)) :
    Writes (EncodeM.ofExcept outcome >>= next) start final
      (SessionM.ofExcept outcome >>= formed) := by
  cases outcome with
  | ok value => exact other value rfl
  | error cause => exact Writes.throw cause

/-- A session step comes first. -/
theorem bindSession {next : α → EncodeM Unit} {final : β → Writer} {formed : α → SessionM β}
    (action : SessionM α) (other : ∀ value, Writes (next value) start final (formed value)) :
    Writes (EncodeM.ofSession action >>= next) start final (action >>= formed) := by
  intro session
  rw [perform_bind, perform_bind, Encoding.perform_ofSession]
  rcases perform action session with ⟨cause | value, after⟩
  · exact ⟨start, rfl, fun _ failed => by cases failed⟩
  · exact other value after

/-- A failure is reported as that of a field. -/
theorem forField {action : EncodeM Unit} {final : α → Writer} {form : SessionM α}
    (entity field : String) (writes : Writes action start final form) :
    Writes (EncodeM.forField entity field action) start final
      (tryCatch form fun cause => MonadExcept.throw (.encoding entity field cause)) := by
  intro session
  obtain ⟨writer, ran, stands⟩ := writes session
  rw [EncodeM.forField, perform_tryCatch, perform_tryCatch, ran]
  rcases outcome : perform form session with ⟨cause | value, after⟩
  · exact ⟨writer, rfl, fun _ failed => by cases failed⟩
  · rw [outcome] at stands
    exact ⟨writer, rfl, stands⟩

/-- A writer of its own is put aside once its document is taken. -/
theorem perform_detached_eq (inner outer : Writer) (body : EncodeM Unit) (session : Session) :
    perform (EncodeM.detached inner body) ⟨outer, session⟩ =
      (match (perform body ⟨inner, session⟩).1 with
      | .ok _ => (perform body ⟨inner, session⟩).2.writer.document?.mapError
          MappingError.document
      | .error cause => .error cause, ⟨outer, (perform body ⟨inner, session⟩).2.session⟩) := rfl

/-- A document is written into a writer of its own. -/
theorem perform_detached {body : EncodeM Unit} {inner : Writer} {rooted : Document → Writer}
    {form : SessionM Document} (writes : Writes body inner rooted form)
    (finished : ∀ document, (rooted document).document? = .ok document) (outer : Writer)
    (session : Session) :
    perform (EncodeM.detached inner body) ⟨outer, session⟩ =
      ((perform form session).1, ⟨outer, (perform form session).2⟩) := by
  obtain ⟨writer, ran, stands⟩ := writes session
  rw [perform_detached_eq, ran]
  rcases outcome : perform form session with ⟨cause | value, after⟩
  · rfl
  · rw [stands value (by rw [outcome])]
    simp only [Except.map]
    rw [finished value]
    rfl

/-- A document written into a writer of its own comes first. -/
theorem bindDetached {body : EncodeM Unit} {next : Document → EncodeM Unit} {inner : Writer}
    {rooted : Document → Writer} {final : α → Writer} {form : SessionM Document}
    {formed : Document → SessionM α} (one : Writes body inner rooted form)
    (finished : ∀ document, (rooted document).document? = .ok document)
    (other : ∀ document, Writes (next document) start final (formed document)) :
    Writes (EncodeM.detached inner body >>= next) start final (form >>= formed) := by
  intro session
  rw [perform_bind, perform_bind, one.perform_detached finished]
  rcases perform form session with ⟨cause | value, after⟩
  · exact ⟨start, rfl, fun _ failed => by cases failed⟩
  · exact other value after

/-- A writing step that succeeds. -/
theorem ofWrite {action : WriteM Unit} {value : α} {final : α → Writer}
    (ran : perform action start = (.ok (), final value)) :
    Writes (EncodeM.ofWrite action) start final (Pure.pure value) := by
  intro session
  refine ⟨final value, ?_, fun other succeeded => ?_⟩
  · change ((perform action start).1.mapError MappingError.document,
      (⟨(perform action start).2, session⟩ : EncodeState)) = _
    rw [ran]
    rfl
  · obtain rfl := Except.ok.inj succeeded
    rfl

end Writes

namespace Encoding

open Writer (Ready within among)

variable {start : Writer}

/-- A writing step as an encoding step, where it succeeds. -/
theorem perform_ofWrite {action : WriteM Unit} {final : Writer}
    (ran : perform action start = (.ok (), final)) (session : Session) :
    perform (EncodeM.ofWrite action) ⟨start, session⟩ = (.ok (), ⟨final, session⟩) := by
  change ((perform action start).1.mapError MappingError.document,
    (⟨(perform action start).2, session⟩ : EncodeState)) = _
  rw [ran]
  rfl

/-- A value written at once is put in its place. -/
theorem writes_content (ready : start.Ready) (content : Bson) :
    Writes (EncodeM.writeValue content) start start.place (pure content) :=
  Writes.ofWrite (Writer.perform_writeValue ready content)

/-- What is found for a value is put in its place, or the value fits no codec. -/
theorem writes_found (ready : start.Ready) (value : Value) (codec : Codec)
    (found : Option Bson) :
    Writes
      (match found with
      | some content => EncodeM.writeValue content
      | none => unexpected codec value) start start.place
      (match found with
      | some content => pure content
      | none => throw (.unexpectedValue codec.fieldType value.kindName)) := by
  cases found with
  | some content => exact writes_content ready content
  | none => exact Writes.throw _

/-- A value without parts is put in its place. -/
theorem writes_plain (ready : start.Ready) (value : Value) (codec : Codec) :
    Writes (writePlain value codec) start start.place (Stored.plain value codec) := by
  cases codec with
  | scalar type => exact writes_found ready value _ (scalar? type value)
  | any => exact writes_found ready value _ (plain? value)
  | _ => exact writes_found ready value _ none

/-- A document is put in its place. -/
theorem writes_document (ready : start.Ready) {body : EncodeM Unit} {form : SessionM Document}
    (inside : Writes body (within [] start.slot start.stack start.root)
      (fun entries => within entries start.slot start.stack start.root) form) :
    Writes (EncodeM.inDocument body) start (fun entries => start.place (.document entries))
      form := by
  refine Writes.andThen (perform_ofWrite (Writer.perform_startDocument ready)) ?_
  exact inside.thenLast fun entries =>
    perform_ofWrite (Writer.perform_endDocument ready entries)

/-- An array is put in its place. -/
theorem writes_array (ready : start.Ready) {body : EncodeM Unit} {form : SessionM (List Bson)}
    (inside : Writes body (among [] start.slot start.stack start.root)
      (fun items => among items start.slot start.stack start.root) form) :
    Writes (EncodeM.inArray body) start (fun items => start.place (.array items)) form := by
  refine Writes.andThen (perform_ofWrite (Writer.perform_startArray ready)) ?_
  exact inside.thenLast fun items => perform_ofWrite (Writer.perform_endArray ready items)

variable {context : MappingContext} {properties : List (String × Value)}

/-- The properties keep their names and values. -/
theorem get?_propertyWriters (context : MappingContext) (name : String)
    (properties : List (String × Value)) :
    Keyed.get? name (propertyWriters context properties) =
      (Keyed.get? name properties).map fun found => (found, writeValue context found) := by
  have same : propertyWriters context properties =
      properties.map fun entry => (entry.1, (entry.2, writeValue context entry.2)) := by
    induction properties with
    | nil => rw [propertyWriters, List.map_nil]
    | cons entry rest ih => rw [propertyWriters, ih, List.map_cons]
  rw [same]
  exact Keyed.get?_map (fun found => (found, writeValue context found)) name properties

/-- Wherever it may be written, the value ends up as its stored form. -/
def WritesValue (context : MappingContext) (value : Value) : Prop :=
  ∀ codec {start : Writer}, start.Ready →
    Writes (writeValue context value codec) start start.place (Stored.value context value codec)

/-- A property is put into the document of its entity. -/
theorem writes_property (model : EntityModel)
    (each : ∀ entry ∈ properties, WritesValue context entry.2) (field : Field)
    (document : Document) (slot : Slot) (outer : List Frame) (root : Option Bson) :
    Writes (writeProperty context model (propertyWriters context properties) field)
      (within document slot outer root) (within · slot outer root)
      (Stored.property context.mapper.options model (Stored.forms context properties) document
        field) := by
  rw [writeProperty, Stored.property, get?_propertyWriters, Stored.get?_forms]
  simp only [Option.map_map, Function.comp_def, Option.map_id_fun', id_eq]
  split
  · have ready := Ready.field field.documentName document slot outer root
    have keep : ∀ {write : EncodeM Unit} {form : SessionM Bson},
        Writes write { within document slot outer root with pendingName := some field.documentName }
          (fun stored => within (Keyed.insert field.documentName stored document) slot outer root)
          form →
        Writes (do
          EncodeM.ofWrite (Writer.writeName field.documentName)
          write) (within document slot outer root) (within · slot outer root) (do
          let stored ← form
          pure (Keyed.insert field.documentName stored document)) := by
      intro write form writes
      refine Writes.andThen (perform_ofWrite (Writer.perform_writeName ..)) ?_
      rw [← map_eq_pure_bind]
      exact writes.map _
    refine keep ?_
    rcases found : Keyed.get? field.name properties with _ | value
    · exact writes_content ready .null
    · have known := each _ (Keyed.mem_of_get? found)
      cases value with
      | null => exact writes_content ready .null
      | _ => exact Writes.bindExcept field.resolved fun codec _ =>
          (known codec ready).forField model.name field.name
  · exact Writes.pure document rfl

/-- Properties are put into the document of their entity one after the other. -/
theorem writes_properties (model : EntityModel)
    (each : ∀ entry ∈ properties, WritesValue context entry.2) (fields : List Field)
    (document : Document) (slot : Slot) (outer : List Frame) (root : Option Bson) :
    Writes (writeProperties context model (propertyWriters context properties) fields)
      (within document slot outer root) (within · slot outer root)
      (fields.foldlM (Stored.property context.mapper.options model
        (Stored.forms context properties)) document) := by
  induction fields generalizing document with
  | nil => exact Writes.pure document rfl
  | cons field rest ih =>
    rw [writeProperties, List.foldlM_cons]
    exact (writes_property model each field document slot outer root).bind ih

/-- The properties of an entity are put into an open document. -/
theorem writes_body (model : EntityModel)
    (each : ∀ entry ∈ properties, WritesValue context entry.2)
    (document : Document) (slot : Slot) (outer : List Frame) (root : Option Bson) :
    Writes (do
        writeProperties context model (propertyWriters context properties) model.idField.toList
        writeDiscriminator model
        writeProperties context model (propertyWriters context properties)
          (model.fields.filter fun field => !field.isId))
      (within document slot outer root) (within · slot outer root)
      (Stored.entries context.mapper.options model (Stored.forms context properties)
        document) := by
  have marks : ∀ written session, perform (writeDiscriminator model)
      ⟨within written slot outer root, session⟩ =
        (.ok (), ⟨within (Stored.marked model written) slot outer root, session⟩) := by
    intro written session
    rw [writeDiscriminator, Stored.marked]
    cases model.activeKey with
    | none => rfl
    | some key => rfl
  apply (writes_properties model each _ document slot outer root).bind
  intro written
  exact (Writes.andThen (marks written)) (writes_properties model each _ _ slot outer root)

/-- The finished writer of a document. -/
def rooted (document : Document) : Writer := ⟨[], none, some (.document document), none⟩

/-- In a writer of its own, an entity is written over the document that the writer starts with. -/
theorem writes_over (model : EntityModel) (each : ∀ entry ∈ properties, WritesValue context entry.2)
    (seed : Document) :
    Writes (writeEntries context model (propertyWriters context properties)) (Writer.seeded seed)
      rooted
      (Stored.entries context.mapper.options model (Stored.forms context properties) seed) := by
  refine Writes.andThen (perform_ofWrite (Writer.perform_startDocument_seeded seed)) ?_
  exact (writes_body model each seed .root [] none).thenLast fun entries =>
    perform_ofWrite (Writer.perform_endDocument .root entries)

/-- An entity of a model is put in its place as a document. -/
theorem writes_ofModel (ready : start.Ready) (model : EntityModel) (kind : String)
    (each : ∀ entry ∈ properties, WritesValue context entry.2) :
    Writes (if model.hasPersistHooks || context.mapper.hasInterceptors then
        writeWithHooks context model ⟨kind, properties⟩ (propertyWriters context properties)
      else writeEntries context model (propertyWriters context properties)) start
      (fun document => start.place (.document document))
      (Stored.ofModel context model ⟨kind, properties⟩ (Stored.forms context properties)) := by
  rw [Stored.ofModel]
  split
  · rw [writeWithHooks]
    refine Writes.bindSession _ fun seed => ?_
    refine (writes_over model each seed).bindDetached (fun _ => rfl) fun document => ?_
    have last := Writes.bindSession
      (runHooks context model .postPersist ⟨kind, properties⟩ document) fun changed =>
        @Writes.ofWrite _ start _ changed (fun changed => start.place (.document changed))
          (Writer.perform_writeValue ready (.document changed))
    rwa [bind_pure] at last
  · exact writes_document ready (writes_body model each [] start.slot start.stack start.root)

/-- An entity is put in its place as a document. -/
theorem writes_entity (ready : start.Ready) (declared : EntityModel) (kind : String)
    (each : ∀ entry ∈ properties, WritesValue context entry.2) :
    Writes (writeEntity context declared ⟨kind, properties⟩ (propertyWriters context properties))
      start (fun document => start.place (.document document))
      (Stored.entity context declared ⟨kind, properties⟩ (Stored.forms context properties)) := by
  rw [writeEntity, Stored.entity]
  exact Writes.bindExcept _ fun model _ => writes_ofModel ready model kind each

mutual

/-- A value is put in its place in its stored form. -/
theorem writes_value (context : MappingContext) : ∀ value, WritesValue context value
  | .array values, codec, start, ready => by
    have inside := fun codec =>
      writes_items context values codec [] start.slot start.stack start.root
    cases codec with
    | list element =>
      rw [writeValue, Stored.value]
      exact (writes_array ready (inside element)).map Bson.array
    | any =>
      rw [writeValue, Stored.value]
      exact (writes_array ready (inside .any)).map Bson.array
    | _ =>
      simp only [writeValue, Stored.value]
      exact Writes.throw _
  | .map values, codec, start, ready => by
    have inside := fun codec =>
      writes_named context values codec [] start.slot start.stack start.root
    cases codec with
    | map element =>
      rw [writeValue, Stored.value]
      exact (writes_document ready (inside element)).map Bson.document
    | any =>
      rw [writeValue, Stored.value]
      exact (writes_document ready (inside .any)).map Bson.document
    | _ =>
      simp only [writeValue, Stored.value]
      exact Writes.throw _
  | .entity kind properties, codec, start, ready => by
    have inside := fun declared =>
      writes_entity ready declared kind (writes_forms context properties)
    cases codec with
    | entity name =>
      rw [writeValue, Stored.value]
      exact Writes.bindExcept _ fun declared _ => (inside declared).map Bson.document
    | any =>
      rw [writeValue, Stored.value]
      exact Writes.bindExcept _ fun declared _ => (inside declared).map Bson.document
    | _ =>
      simp only [writeValue, Stored.value]
      exact Writes.throw _
  | .null, codec, start, ready | .bool _, codec, start, ready | .int32 _, codec, start, ready
  | .int64 _, codec, start, ready | .double _, codec, start, ready
  | .string _, codec, start, ready | .objectId _, codec, start, ready
  | .dateTime _, codec, start, ready | .other _, codec, start, ready => by
    simp only [writeValue, Stored.value]
    exact writes_plain ready _ codec

/-- The items of a list are put into an open array. -/
theorem writes_items (context : MappingContext) : ∀ (values : List Value) (codec : Codec)
    (written : List Bson) (slot : Slot) (outer : List Frame) (root : Option Bson),
    Writes (writeItems context values codec) (among written slot outer root)
      (fun items => among (written ++ items) slot outer root) (Stored.items context values codec)
  | [], codec, written, slot, outer, root => by
    rw [writeItems, Stored.items]
    exact Writes.pure [] (by rw [List.append_nil])
  | item :: rest, codec, written, slot, outer, root => by
    rw [writeItems, Stored.items]
    have ready := Ready.element written slot outer root
    have whole : ∀ {write : EncodeM Unit} {form : SessionM Bson},
        Writes write (among written slot outer root) (among written slot outer root).place form →
        Writes (write >>= fun _ => writeItems context rest codec) (among written slot outer root)
          (fun items => among (written ++ items) slot outer root) (do
            let first ← form
            let others ← Stored.items context rest codec
            pure (first :: others)) := by
      intro write form first
      refine first.bind fun stored => ?_
      have others := writes_items context rest codec (written ++ [stored]) slot outer root
      rw [← map_eq_pure_bind]
      refine Writes.map _ ?_
      simp only [List.append_assoc, List.singleton_append] at others
      exact others
    unfold Stored.orNull
    split
    · exact whole (writes_content ready .null)
    · exact whole (writes_value context item codec ready)

/-- The entries of a map are put into an open document. -/
theorem writes_named (context : MappingContext) : ∀ (values : List (String × Value))
    (codec : Codec) (document : Document) (slot : Slot) (outer : List Frame) (root : Option Bson),
    Writes (writeNamed context values codec) (within document slot outer root)
      (within · slot outer root) (Stored.named context values codec document)
  | [], codec, document, slot, outer, root => by
    rw [writeNamed, Stored.named]
    exact Writes.pure document rfl
  | (key, entry) :: rest, codec, document, slot, outer, root => by
    rw [writeNamed, Stored.named]
    have ready := Ready.field key document slot outer root
    have whole : ∀ {write : EncodeM Unit} {form : SessionM Bson},
        Writes write { within document slot outer root with pendingName := some key }
          (fun stored => within (Keyed.insert key stored document) slot outer root) form →
        Writes (write >>= fun _ => writeNamed context rest codec)
          { within document slot outer root with pendingName := some key }
          (within · slot outer root) (do
            let stored ← form
            Stored.named context rest codec (Keyed.insert key stored document)) :=
      fun first => first.bind fun stored =>
        writes_named context rest codec (Keyed.insert key stored document) slot outer root
    refine Writes.andThen (perform_ofWrite (Writer.perform_writeName ..)) ?_
    unfold Stored.orNull
    split
    · exact whole (writes_content ready .null)
    · exact whole (writes_value context entry codec ready)

/-- Every property is put in its place in its stored form. -/
theorem writes_forms (context : MappingContext) : ∀ properties : List (String × Value),
    ∀ entry ∈ properties, WritesValue context entry.2
  | [], _, member => by simp at member
  | (name, value) :: rest, entry, member => by
    rcases List.mem_cons.mp member with rfl | later
    · exact writes_value context value
    · exact writes_forms context rest entry later

end

/-- When an entity needs an id. -/
theorem needsId_eq_some {options : Options} {model : EntityModel} {entity : Entity}
    {field : Field} :
    needsId options model entity = some field ↔
      options.generateIds = true ∧ model.idField = some field ∧
        field.type.acceptsObjectId = true ∧ (entity.valueOf field.name).isNull = true := by
  unfold needsId
  cases options.generateIds with
  | false => simp
  | true =>
    cases model.idField with
    | none => simp
    | some identity =>
      by_cases needed : (identity.type.acceptsObjectId && (entity.valueOf identity.name).isNull)
          = true
      · simp only [if_true, if_pos needed, Option.some.injEq, true_and]
        constructor
        · rintro rfl
          exact ⟨rfl, Bool.and_eq_true_iff.mp needed⟩
        · exact fun known => known.1
      · simp only [if_true, if_neg needed, Option.some.injEq, true_and]
        constructor
        · rintro ⟨⟩
        · rintro ⟨rfl, both⟩
          exact absurd (Bool.and_eq_true_iff.mpr both) needed

/-- The field that an entity needs an id for is one of its model, and may hold an id. -/
theorem needsId_some {options : Options} {model : EntityModel} {entity : Entity} {field : Field}
    (needed : needsId options model entity = some field) :
    field ∈ model.fields ∧ field.type.acceptsObjectId = true := by
  obtain ⟨-, identity, accepts, -⟩ := needsId_eq_some.mp needed
  exact ⟨List.mem_of_find?_eq_some identity, accepts⟩

/-- An id does not change the kind. -/
theorem assignId_kind (options : Options) (model : EntityModel) (entity : Entity)
    (session : Session) : (assignId options model entity session).1.kind = entity.kind := by
  unfold assignId
  split
  · exact entity.set_kind ..
  · rfl

/-- What is written into an empty writer is the stored form. -/
theorem documentOf_eq {body : EncodeM Unit} {rooted : Document → Writer}
    {form : SessionM Document} (writes : Writes body Writer.empty rooted form)
    (finished : ∀ document, (rooted document).document? = .ok document) (session : Session) :
    documentOf body session = perform form session := by
  change ((perform (EncodeM.detached Writer.empty body) ⟨Writer.empty, session⟩).1,
    (perform (EncodeM.detached Writer.empty body) ⟨Writer.empty, session⟩).2.session) = _
  rw [writes.perform_detached finished]

/-- Encoding an entity into an empty writer gives its stored form. -/
theorem documentOf_write (context : MappingContext) (declared : EntityModel) (entity : Entity)
    (session : Session) :
    documentOf (write context declared entity) session =
      perform (Stored.entity context declared entity
        (Stored.forms context entity.properties)) session :=
  documentOf_eq (writes_entity Ready.root declared entity.kind
    (writes_forms context entity.properties)) (fun _ => rfl) session

end Encoding

namespace Mapper

variable {mapper : Mapper} {entity : Entity}

/-- Encoding a top-level entity gives its stored form, once it has its id. -/
theorem toDocument_eq {model : EntityModel} (found : mapper.model? entity.kind = some model)
    (session : Session) :
    mapper.toDocument entity session =
      let (given, after) := Encoding.assignId mapper.options model entity session
      let (outcome, last) := perform (Stored.ofModel mapper.context model given
        (Stored.forms mapper.context given.properties)) after
      ⟨outcome, given, last⟩ := by
  have known : mapper.model entity.kind = .ok model := by rw [Mapper.model, found]
  have own : model.name = entity.kind := by simpa using List.find?_some found
  have unfolded : mapper.toDocument entity session =
      Encoding.encode mapper.context model true entity session := by
    rw [toDocument, encodeWithin, known, context]
  rw [unfolded, Encoding.encode, Encoding.modelFor_eq_ite, if_pos own]
  simp only [if_true, Encoding.documentOf_write, Stored.entity, Encoding.modelFor_eq_ite,
    context_mapper]
  rw [if_pos (own.trans (Encoding.assignId_kind _ _ _ _).symm)]
  rfl

/-- An entity of an unknown kind is not encoded. -/
theorem toDocument_unknown (unknown : mapper.model? entity.kind = none) (session : Session) :
    mapper.toDocument entity session = ⟨.error (.noCodec entity.kind), entity, session⟩ := by
  rw [toDocument, encodeWithin, Mapper.model, unknown]

end Mapper

end EntityMapping
