import EntityMapping.Lifecycle.Edit
import EntityMapping.Model.Declaration
import EntityMapping.Proofs.Encoding.Writing
/-!
# Hooks write an overlay

Where hooks run, the document of an entity is written over the one that the first hooks leave.
Said without the writer that is seeded for it: the document that the entity has by itself is laid
over the seed, name by name, and the last hooks see the whole. The result is written at once, so
a failure on the way leaves no trace in the writer.
-/

namespace EntityMapping

open Keyed (overlay Distinct)

namespace Stored

variable {options : Options} {model : EntityModel} {forms : Keyed PropertyForm}

/-- A property stored over a document leaves it with distinct names. -/
theorem property_distinct {document : Document} (distinct : Keyed.Distinct document)
    (field : Field) : Ensures (property options model forms document field) Keyed.Distinct := by
  unfold property
  dsimp only
  split
  · exact (Ensures.trivial _).bind fun stored _ =>
      Ensures.pure (distinct.insert field.documentName stored)
  · exact Ensures.pure distinct

/-- A property is stored over a document as by itself. -/
theorem property_overlay (seed : Document) {document : Document}
    (distinct : Keyed.Distinct document) (field : Field) :
    property options model forms (overlay seed document) field =
      overlay seed <$> property options model forms document field := by
  unfold property
  dsimp only
  split
  · simp only [map_bind, map_pure, Keyed.overlay_insert seed distinct]
  · rw [map_pure]

/-- Properties are stored over a document as by themselves. -/
theorem foldlM_overlay (seed : Document) (fields : List Field) {document : Document}
    (distinct : Keyed.Distinct document) :
    fields.foldlM (property options model forms) (overlay seed document) =
      overlay seed <$> fields.foldlM (property options model forms) document := by
  induction fields generalizing document with
  | nil => rw [List.foldlM_nil, List.foldlM_nil, map_pure]
  | cons field rest ih =>
    rw [List.foldlM_cons, List.foldlM_cons, property_overlay seed distinct, map_bind,
      bind_map_left]
    exact (property_distinct distinct field).bind_congr fun next known => ih known

/-- The discriminator is stored over a document as by itself. -/
theorem marked_overlay (seed : Document) {document : Document}
    (distinct : Keyed.Distinct document) :
    marked model (overlay seed document) = overlay seed (marked model document) := by
  unfold marked
  split
  · rw [Keyed.overlay_insert seed distinct]
  · rfl

/-- The discriminator leaves a document with distinct names. -/
theorem marked_distinct {document : Document} (distinct : Keyed.Distinct document) :
    Keyed.Distinct (marked model document) := by
  unfold marked
  split
  · exact distinct.insert _ _
  · exact distinct

/-- The document of an entity over a seed is its own document laid over the seed. -/
theorem entries_overlay (options : Options) (model : EntityModel) (forms : Keyed PropertyForm)
    (seed : Document) :
    entries options model forms seed = overlay seed <$> entries options model forms [] := by
  have empty : Keyed.Distinct ([] : Document) := List.nodup_nil
  have first : Ensures (model.idField.toList.foldlM (property options model forms) [])
      Keyed.Distinct :=
    Ensures.foldlM empty fun document known field _ => property_distinct known field
  have laid : model.idField.toList.foldlM (property options model forms) seed =
      overlay seed <$> model.idField.toList.foldlM (property options model forms) [] :=
    foldlM_overlay seed _ empty
  rw [entries, entries, laid, map_bind, bind_map_left]
  refine first.bind_congr fun document known => ?_
  rw [marked_overlay seed known, foldlM_overlay seed _ (marked_distinct known)]

end Stored

/-- Hooks run one after the other as in two rows. -/
theorem Hook.runAll_append {services : Services} {kind : HookKind} {model : String}
    {entity : Entity} (first second : List Hook) (document : Document) :
    runAll services kind model entity (first ++ second) document =
      runAll services kind model entity first document >>=
        runAll services kind model entity second := by
  induction first generalizing document with
  | nil => rw [List.nil_append, runAll, pure_bind]
  | cons hook rest ih =>
    rw [List.cons_append, runAll, runAll, bind_assoc]
    exact bind_congr fun changed => ih changed

namespace Encoding

variable {context : MappingContext} {declared model : EntityModel} {entity : Entity}

/-- What the hooks of a model, in order, and then the interceptors make of a document. -/
def observe (context : MappingContext) (model : EntityModel) (kind : HookKind) (entity : Entity)
    (document : Document) : SessionM Document := do
  let changed ←
    Hook.runAll context.services kind model.name entity (model.hooks kind) document
  Hook.runAll context.services kind model.name entity
    (context.mapper.interceptors.map fun interceptor => interceptor kind) changed

/-- The document that an entity of a model has by itself: what is written of it, without its own
hooks, into an empty writer. -/
def ownDocument (context : MappingContext) (model : EntityModel) (entity : Entity) :
    SessionM Document :=
  ExceptT.mk (documentOf (writeEntries context model (propertyWriters context entity.properties)))

/-- The document of an entity with hooks: its own laid over what the first hooks leave, as the
last hooks leave it. -/
def observed (context : MappingContext) (model : EntityModel) (entity : Entity) :
    SessionM Document := do
  let seed ← observe context model .prePersist entity []
  let own ← ownDocument context model entity
  observe context model .postPersist entity (overlay seed own)

/-- Running the hooks of a point is running those of the model and then the interceptors. -/
theorem runHooks_eq (kind : HookKind) (document : Document) :
    runHooks context model kind entity document = observe context model kind entity document :=
  Hook.runAll_append _ _ document

/-- A session step in two parts. -/
theorem ofSession_bind {α β : Type} (first : SessionM α) (second : α → SessionM β) :
    EncodeM.ofSession (first >>= second) =
      EncodeM.ofSession first >>= fun value => EncodeM.ofSession (second value) := by
  refine perform_ext fun ⟨writer, session⟩ => ?_
  rw [perform_ofSession, perform_bind, perform_bind, perform_ofSession]
  rcases perform first session with ⟨cause | value, after⟩
  · rfl
  · exact (perform_ofSession (second value) writer after).symm

/-- A function of the result of a session step. -/
theorem ofSession_map {α β : Type} (change : α → β) (action : SessionM α) :
    EncodeM.ofSession (change <$> action) = change <$> EncodeM.ofSession action := by
  rw [map_eq_pure_bind, map_eq_pure_bind, ofSession_bind]
  rfl

/-- The own document of an entity is that of its properties over no other. -/
theorem ownDocument_eq : ownDocument context model entity =
    Stored.entries context.mapper.options model (Stored.forms context entity.properties) [] :=
  funext fun session => documentOf_eq (writes_document Writer.Ready.root
    (writes_body model (writes_forms context entity.properties) [] .root [] none))
    (fun _ => rfl) session

/-- An entity in a writer that starts with a seed is its own document laid over the seed. -/
theorem detached_seeded (seed : Document) :
    EncodeM.detached (Writer.seeded seed)
        (writeEntries context model (propertyWriters context entity.properties)) =
      EncodeM.ofSession (overlay seed <$> ownDocument context model entity) := by
  rw [ownDocument_eq, ← Stored.entries_overlay]
  exact perform_ext fun ⟨outer, session⟩ =>
    (writes_over model (writes_forms context entity.properties) seed).perform_detached
      (fun _ => rfl) outer session

/-- Where hooks or interceptors run, an entity is written as one value: its own document laid over
what the first hooks leave, as the last hooks leave it. A failure on the way, the first one,
leaves the writer alone. -/
theorem write_eq_observed (dispatched : modelFor context.mapper declared entity.kind = .ok model)
    (hooked : (model.hasPersistHooks || context.mapper.hasInterceptors) = true)
    (writer : Writer) (session : Session) :
    perform (write context declared entity) ⟨writer, session⟩ =
      match perform (observed context model entity) session with
      | (.ok document, after) => perform (EncodeM.writeValue (.document document)) ⟨writer, after⟩
      | (.error cause, after) => (.error cause, ⟨writer, after⟩) := by
  have whole : write context declared entity =
      EncodeM.ofSession (observed context model entity) >>= fun document =>
        EncodeM.writeValue (.document document) := by
    rw [write, writeEntity, dispatched]
    change (if model.hasPersistHooks || context.mapper.hasInterceptors then
      writeWithHooks context model entity (propertyWriters context entity.properties) else _) = _
    rw [if_pos hooked, writeWithHooks]
    simp only [runHooks_eq, detached_seeded, observed, ofSession_bind, ofSession_map,
      bind_map_left, bind_assoc]
  rw [whole, perform_bind, perform_ofSession]
  rcases perform (observed context model entity) session with ⟨cause | document, after⟩ <;> rfl

/-- Notes that an import prepares: a text for those without one, and a mark of its own. -/
def importedNotes : MapperPlan :=
  ⟨.standard, [{ EntityModel.blank "Note" with
    fields := [.plain "text" (.scalar .string)]
    hooks := fun kind => if kind = .prePersist then
      [Edit.run kind (.insert "text" (.string "empty")),
        Edit.run kind (.insert "by" (.string "import"))] else [] }], [], []⟩

/-- The text of a note takes the place of the prepared one, before the mark of the import. -/
theorem write_eq_observed_note : ∃ mapper model,
    let note := (Entity.empty "Note").set "text" (.string "Ada")
    let session := Session.start fun _ => ⟨7⟩
    importedNotes.assemble = .ok mapper ∧ mapper.model? "Note" = some model ∧
      perform (write mapper.context model note) ⟨Writer.empty, session⟩ =
        (.ok (), ⟨rooted [("text", .string "Ada"), ("by", .string "import"),
          ("_t", .string "Note")], session⟩) := by
  obtain ⟨mapper, built⟩ : ∃ mapper, importedNotes.assemble = .ok mapper := ⟨_, rfl⟩
  obtain ⟨model, found⟩ : ∃ model, mapper.model? "Note" = some model := by
    cases built
    exact ⟨_, rfl⟩
  refine ⟨mapper, model, built, found, ?_⟩
  have dispatched : modelFor mapper.context.mapper model "Note" = .ok model := by
    cases built
    cases found
    rfl
  have hooked : (model.hasPersistHooks || mapper.context.mapper.hasInterceptors) = true := by
    cases built
    cases found
    rfl
  rw [write_eq_observed dispatched hooked]
  cases built
  cases found
  rfl

end Encoding

end EntityMapping
