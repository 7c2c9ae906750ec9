import EntityMapping.Decidable
import EntityMapping.Proofs.Decoding.Fields
import EntityMapping.Proofs.Encoding.Shape
/-!
# The id of an entity

Encoding an entity may give it an id, and changes nothing else of it. The entity is given
an id before it is stored, so it keeps the id where storing it fails; with its id it is
stored again in the same way.
-/

namespace EntityMapping

/-- A type that accepts ids is that of ids, or open to any value. -/
theorem FieldType.acceptsObjectId_iff {type : FieldType} :
    type.acceptsObjectId = true ↔ type = .scalar .objectId ∨ type = .any := by
  cases type with
  | scalar scalar => cases scalar <;> simp [FieldType.acceptsObjectId]
  | _ => simp [FieldType.acceptsObjectId]

namespace Entity

variable {entity : Entity} {property : String}

/-- An entity that holds no null has a value for a property, or has nothing there. -/
theorem valueOf_isNull_iff (filled : ∀ entry ∈ entity.properties, entry.2 ≠ .null) :
    (entity.valueOf property).isNull = true ↔ entity.get? property = none := by
  unfold valueOf
  cases found : entity.get? property with
  | none => simp [Value.isNull]
  | some value =>
    have present := filled _ (Keyed.mem_of_get? found)
    cases value <;> simp_all [Value.isNull]

end Entity

namespace Mapper

variable {mapper : Mapper} {entity : Entity} {field : Field}

/-- A mapper is to give an entity an id in a field. -/
structure LacksId (mapper : Mapper) (entity : Entity) (field : Field) : Prop where
  /-- Ids are generated. -/
  generated : mapper.options.generateIds = true
  /-- The field is the id of the model of the entity. -/
  identity : ∃ model, mapper.model? entity.kind = some model ∧ model.idField = some field
  /-- The field may hold an id. -/
  suits : field.type = .scalar .objectId ∨ field.type = .any
  /-- The entity has no value for the field. -/
  missing : entity.get? field.name = none

/-- The field that an entity needs an id for is the one that it lacks its id in. -/
theorem needsId_iff {model : EntityModel} (found : mapper.model? entity.kind = some model)
    (filled : ∀ entry ∈ entity.properties, entry.2 ≠ .null) :
    Encoding.needsId mapper.options model entity = some field ↔ mapper.LacksId entity field := by
  rw [Encoding.needsId_eq_some, FieldType.acceptsObjectId_iff, Entity.valueOf_isNull_iff filled]
  constructor
  · rintro ⟨generated, identity, suits, missing⟩
    exact ⟨generated, ⟨model, found, identity⟩, suits, missing⟩
  · rintro ⟨generated, ⟨other, known, identity⟩, suits, missing⟩
    obtain rfl := Option.some.inj (found.symm.trans known)
    exact ⟨generated, identity, suits, missing⟩

/-- An entity with its id is left as it is. -/
theorem assignId_again (options : Options) (model : EntityModel) (session later : Session) :
    let given := (Encoding.assignId options model entity session).1
    Encoding.assignId options model given later = (given, later) := by
  have settled : Encoding.needsId options model
      (Encoding.assignId options model entity session).1 = none := by
    rw [Encoding.assignId]
    cases needed : Encoding.needsId options model entity with
    | none => exact needed
    | some field =>
      rw [Option.eq_none_iff_forall_ne_some]
      intro other again
      obtain ⟨-, identity, -⟩ := Encoding.needsId_eq_some.mp needed
      obtain ⟨-, same, -, empty⟩ := Encoding.needsId_eq_some.mp again
      obtain rfl := Option.some.inj (identity.symm.trans same)
      rw [Entity.valueOf_set_self] at empty
      cases empty
  dsimp only
  rw [Encoding.assignId, settled]

/-- Without hooks the outcome of encoding an entity is that of its stored form, and nothing
happens in the session but that an id is drawn. -/
theorem Silent.toDocument_stored {model : EntityModel} (silent : mapper.Silent)
    (found : mapper.model? entity.kind = some model) (session : Session) :
    mapper.toDocument entity session =
      let (given, after) := Encoding.assignId mapper.options model entity session
      ⟨(Stored.ofModel mapper.context model given
        (Stored.forms mapper.context given.properties)).outcome, given, after⟩ := by
  rw [Mapper.toDocument_eq found]
  obtain ⟨given, after⟩ := Encoding.assignId mapper.options model entity session
  have steady : Steady (Stored.ofModel mapper.context model given
      (Stored.forms mapper.context given.properties)) := by
    rw [@Silent.ofModel mapper.context model silent (model?_some found).1]
    exact Stored.entries_steady _ model (fun entry _ => silent.value_steady entry.2) []
  simp only [SessionM.perform_steady steady]

/-- An id is stored as it is, in a field that may hold ids. -/
theorem content_of_id (sound : mapper.Sound) {model : EntityModel}
    (registered : model ∈ mapper.models) (declared : field ∈ model.fields)
    (suits : field.type.acceptsObjectId = true) {id : ObjectId} {content : Bson}
    (given : entity.valueOf field.name = .objectId id)
    (stores : mapper.StoresField entity field content) : content = .objectId id := by
  obtain ⟨codec, assigned, coded⟩ := sound.resolved model registered field declared
  rw [StoresField, given, if_neg (by simp [Value.isNull])] at stores
  obtain ⟨found, resolved, encoded⟩ := stores
  obtain rfl : found = codec := by
    rw [Field.resolved, assigned] at resolved
    exact (Except.ok.inj resolved).symm
  have written := encoded (.start fun _ => id)
  rw [encodeValue_eq] at written
  rcases FieldType.acceptsObjectId_iff.mp suits with type | type
  · rw [type] at coded
    cases coded
    exact (Except.ok.inj (Prod.mk.inj written).1).symm
  · rw [type] at coded
    cases coded
    exact (Except.ok.inj (Prod.mk.inj written).1).symm

/-- An entity that is given an id is stored with it. -/
theorem get?_of_id {plan : MapperPlan} {model : EntityModel} {session : Session} {id : ObjectId}
    {document : Document} (built : plan.assemble = .ok mapper) (silent : mapper.Silent)
    (found : mapper.model? entity.kind = some model)
    (needed : Encoding.needsId mapper.options model entity = some field)
    (given : (mapper.toDocument entity session).entity.valueOf field.name = .objectId id)
    (stored : (mapper.toDocument entity session).outcome = .ok document) :
    Keyed.get? field.documentName document = some (.objectId id) := by
  obtain ⟨other, known, -, shaped⟩ := toDocument_shaped built silent stored
  obtain rfl := Option.some.inj (found.symm.trans known)
  obtain ⟨declared, suits⟩ := Encoding.needsId_some needed
  have written : field.isWritten ((mapper.toDocument entity session).entity.valueOf field.name)
      mapper.options = true := by
    simp [given, Field.isWritten, Value.isNull, Value.isEmptyCollection]
  obtain ⟨content, entry, stores⟩ := shaped.stored field declared written
  rw [entry, content_of_id (MapperPlan.sound_of_assemble built) (model?_some found).1 declared
    suits given stores]

/-- Encoding an entity gives it an id if it lacks one, and changes nothing else. Whether or not it
is stored, the entity keeps its kind and its properties in order, and an id that it is given comes
last; where the entity is stored, its id is in the document. The entity as it is left is stored in
the same way again, or fails to be, and is then left as it is. -/
theorem toDocument_assigns_id {plan : MapperPlan} {session : Session}
    (built : plan.assemble = .ok mapper) (silent : mapper.Silent)
    (filled : ∀ entry ∈ entity.properties, entry.2 ≠ .null) :
    let encoded := mapper.toDocument entity session
    (∀ field, mapper.LacksId entity field →
        encoded.entity =
          ⟨entity.kind, entity.properties ++ [(field.name, .objectId session.draw.1)]⟩ ∧
        encoded.session = session.draw.2 ∧
        ∀ document, encoded.outcome = .ok document →
          Keyed.get? field.documentName document = some (.objectId session.draw.1)) ∧
      ((∀ field, ¬ mapper.LacksId entity field) →
        encoded.entity = entity ∧ encoded.session = session) ∧
      ∀ later, mapper.toDocument encoded.entity later =
        ⟨encoded.outcome, encoded.entity, later⟩ := by
  cases found : mapper.model? entity.kind with
  | none =>
    rw [toDocument_unknown found]
    refine ⟨fun field lacks => ?_, fun _ => ⟨rfl, rfl⟩, toDocument_unknown found⟩
    obtain ⟨model, known, -⟩ := lacks.identity
    rw [found] at known
    cases known
  | some model =>
    refine ⟨fun field lacks => ?_, fun complete => ?_, fun later => ?_⟩
    · have needed := (needsId_iff found filled).mpr lacks
      have assigned : Encoding.assignId mapper.options model entity session =
          (entity.set field.name (.objectId session.draw.1), session.draw.2) := by
        rw [Encoding.assignId, needed]
      have encoded := silent.toDocument_stored found session
      rw [assigned] at encoded
      have unknown : field.name ∉ Keyed.keys entity.properties := by
        rw [← Keyed.get?_isSome, ← Entity.get?, lacks.missing]
        simp
      have appended := Entity.set_fresh unknown (.objectId session.draw.1)
      refine ⟨by rw [encoded]; exact appended, by rw [encoded], fun document stored => ?_⟩
      have given : (mapper.toDocument entity session).entity.valueOf field.name =
          .objectId session.draw.1 := by
        rw [encoded, Entity.valueOf_set_self]
      exact get?_of_id built silent found needed given stored
    · have complete : Encoding.needsId mapper.options model entity = none := by
        rw [Option.eq_none_iff_forall_ne_some]
        exact fun field needed => complete field ((needsId_iff found filled).mp needed)
      rw [silent.toDocument_stored found, Encoding.assignId, complete]
      exact ⟨rfl, rfl⟩
    · have again := @assignId_again entity mapper.options model session later
      have kept := Encoding.assignId_kind mapper.options model entity session
      rw [silent.toDocument_stored found]
      dsimp only at again ⊢
      rw [silent.toDocument_stored (kept ▸ found), again]

/-- Shelves with a best book, both of which have ids. -/
def identifiedShelves : MapperPlan :=
  ⟨.standard, [{ EntityModel.blank "Book" with fields := [.id "id" (.scalar .objectId)] },
    { EntityModel.blank "Shelf" with
      fields := [.id "key" (.scalar .objectId), .plain "best" (.entity "Book")] }], [], []⟩

/-- A shelf is given an id, the book on it is not; a second call changes nothing. -/
theorem toDocument_assigns_id_shelf : ∃ mapper field,
    let shelf : Entity := ⟨"Shelf", [("best", .entity "Book" [])]⟩
    let known : Entity := ⟨"Shelf", [("best", .entity "Book" []), ("key", .objectId ⟨7⟩)]⟩
    let session := Session.start fun _ => ⟨7⟩
    identifiedShelves.assemble = .ok mapper ∧ mapper.Silent ∧
      (∀ entry ∈ shelf.properties, entry.2 ≠ .null) ∧
      field.name = "key" ∧ mapper.LacksId shelf field ∧
      (mapper.toDocument shelf session).entity = known ∧
      (mapper.toDocument shelf session).outcome = .ok [("_id", .objectId ⟨7⟩),
        ("_t", .string "Shelf"), ("best", .document [("_t", .string "Book")])] ∧
      ∀ later, mapper.toDocument known later =
        ⟨(mapper.toDocument shelf session).outcome, known, later⟩ := by
  obtain ⟨mapper, built⟩ : ∃ mapper, identifiedShelves.assemble = .ok mapper := ⟨_, rfl⟩
  obtain ⟨silent, field, lacks, named⟩ : mapper.Silent ∧ ∃ field : Field,
      mapper.LacksId ⟨"Shelf", [("best", .entity "Book" [])]⟩ field ∧ field.name = "key" := by
    cases built
    refine ⟨⟨rfl, fun model registered kind => ?_⟩, _, ⟨rfl, ⟨_, rfl, rfl⟩, .inl rfl, rfl⟩, rfl⟩
    rcases List.mem_cons.mp registered with rfl | registered
    · rfl
    · obtain rfl := List.mem_singleton.mp registered
      rfl
  have stored : (do
      let mapper ← identifiedShelves.assemble
      (mapper.toDocument ⟨"Shelf", [("best", .entity "Book" [])]⟩
        (.start fun _ => ⟨7⟩)).outcome) = .ok [("_id", .objectId ⟨7⟩),
          ("_t", .string "Shelf"), ("best", .document [("_t", .string "Book")])] := by decide +kernel
  rw [built] at stored
  have filled : ∀ entry ∈ [("best", Value.entity "Book" [])], entry.2 ≠ .null := by simp
  obtain ⟨given, -, again⟩ := @toDocument_assigns_id mapper
    ⟨"Shelf", [("best", .entity "Book" [])]⟩ identifiedShelves (.start fun _ => ⟨7⟩) built silent
    filled
  have known := (given field lacks).1
  rw [named] at known
  rw [known] at again
  exact ⟨mapper, field, built, silent, filled, named, lacks, known, stored, again⟩

end Mapper

end EntityMapping
