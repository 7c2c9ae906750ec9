import EntityMapping.Decidable
import Mathlib.Data.List.Nodup
import EntityMapping.Model.Declaration
import EntityMapping.Proofs.Encoding.Writing
import EntityMapping.Proofs.Lifecycle.Silent
import EntityMapping.Proofs.Mapper.Keys
/-!
# The shape of a stored entity

A mapper without hooks stores every value in one way, whatever happened before. The
document of an entity starts empty and is only ever added to: its id comes first,
then the discriminator, then the other fields in the order of the model. A checked
model stores nothing under one key twice, so no step replaces what another one stored,
and the entries stand in the order of the steps.
-/

namespace EntityMapping

namespace Stored

variable {context : MappingContext}

/-- A value without parts is stored in one way. -/
theorem plain_steady (single : Value) (codec : Codec) : Steady (plain single codec) := by
  unfold plain
  dsimp only
  split
  · exact Steady.pure _
  · exact Steady.throw _

/-- A null is stored in one way, and any other value as its form is. -/
theorem orNull_steady (value : Value) {form : SessionM Bson} (steady : Steady form) :
    Steady (orNull value form) := by
  unfold orNull
  split
  · exact Steady.pure _
  · exact steady

/-- What is stored for a field is stored in one way, where its property is. -/
theorem content_steady (model : EntityModel) (field : Field) {properties : List (String × Value)}
    (each : ∀ entry ∈ properties, ∀ codec, Steady (value context entry.2 codec)) :
    Steady (content model field (Keyed.get? field.name (forms context properties))) := by
  rw [get?_forms]
  cases found : Keyed.get? field.name properties with
  | none => exact Steady.pure _
  | some one =>
    have known := each _ (Keyed.mem_of_get? found)
    have whole : Steady (do
        let codec ← SessionM.ofExcept field.resolved
        tryCatch (value context one codec) fun cause =>
          throw (.encoding model.name field.name cause)) :=
      (SessionM.steady_ofExcept _).andThen fun codec =>
        (known codec).tryCatch fun cause => Steady.throw _
    cases one with
    | null => exact Steady.pure _
    | _ => exact whole

/-- An entity is stored in one way, where its properties are. -/
theorem entries_steady (options : Options) (model : EntityModel)
    {properties : List (String × Value)}
    (each : ∀ entry ∈ properties, ∀ codec, Steady (value context entry.2 codec))
    (start : Document) : Steady (entries options model (forms context properties) start) := by
  have step : ∀ document field,
      Steady (property options model (forms context properties) document field) := by
    intro document field
    unfold property
    dsimp only
    split
    · exact (content_steady model field each).andThen fun stored => Steady.pure _
    · exact Steady.pure _
  have walk : ∀ (fields : List Field) (document : Document),
      Steady (fields.foldlM (property options model (forms context properties)) document) :=
    fun fields document => Steady.foldlM (fun found field _ => step found field) document
  exact (walk _ start).andThen fun document => walk _ (marked model document)

end Stored

/-- The model that an entity is written by is registered. -/
theorem Encoding.modelFor_registered {mapper : Mapper} {name kind : String}
    {declared model : EntityModel} (located : mapper.model name = .ok declared)
    (chosen : modelFor mapper declared kind = .ok model) : model ∈ mapper.models := by
  rw [modelFor_eq_ite] at chosen
  split at chosen
  · exact Except.ok.inj chosen ▸ (Mapper.model?_some (Mapper.model_ok.mp located)).1
  · exact (Mapper.model?_some (Mapper.model_ok.mp chosen)).1

namespace Mapper.Silent

variable {context : MappingContext}

/-- A mapper without hooks stores an entity in one way, where its properties are. -/
theorem entity_steady (silent : context.mapper.Silent) {kind : String}
    {properties : List (String × Value)}
    (each : ∀ entry ∈ properties, ∀ codec, Steady (Stored.value context entry.2 codec))
    (name : String) : Steady (do
      let declared ← SessionM.ofExcept (context.mapper.model name)
      Bson.document <$> Stored.entity context declared ⟨kind, properties⟩
        (Stored.forms context properties)) := by
  refine (SessionM.steady_ofExcept _).bind (SessionM.ensures_ofExcept _) fun declared located => ?_
  refine Steady.map ?_ Bson.document
  refine (SessionM.steady_ofExcept _).bind (SessionM.ensures_ofExcept _) fun model chosen => ?_
  rw [silent.ofModel (Encoding.modelFor_registered located chosen)]
  exact Stored.entries_steady _ model each []

/-- A mapper without hooks stores every value in one way. -/
theorem value_steady (silent : context.mapper.Silent) (subject : Value) :
    ∀ codec, Steady (Stored.value context subject codec) := by
  induction subject using Value.parts_induction with
  | single single simple =>
    intro codec
    rw [Stored.value_single simple]
    exact Stored.plain_steady single codec
  | array values each =>
    intro codec
    have inside : ∀ inner, Steady (Bson.array <$> Stored.items context values inner) := by
      intro inner
      rw [Stored.items_eq]
      exact (Steady.mapM fun item member =>
        Stored.orNull_steady item (each item member inner)).map Bson.array
    cases codec with
    | list element => rw [Stored.value]; exact inside element
    | any => rw [Stored.value]; exact inside .any
    | _ => simp only [Stored.value]; exact Steady.throw _
  | map values each =>
    intro codec
    have inside : ∀ inner, Steady (Bson.document <$> Stored.named context values inner []) := by
      intro inner
      rw [Stored.named_eq]
      refine (Steady.foldlM (fun document entry member => ?_) []).map Bson.document
      exact (Stored.orNull_steady entry.2 (each entry member inner)).andThen fun stored =>
        Steady.pure _
    cases codec with
    | map element => rw [Stored.value]; exact inside element
    | any => rw [Stored.value]; exact inside .any
    | _ => simp only [Stored.value]; exact Steady.throw _
  | entity kind properties each =>
    intro codec
    cases codec with
    | entity name => rw [Stored.value]; exact silent.entity_steady each name
    | any => rw [Stored.value]; exact silent.entity_steady each kind
    | _ => simp only [Stored.value]; exact Steady.throw _

end Mapper.Silent

/-- The fields of a list that are written for an entity. -/
def Options.written (options : Options) (entity : Entity) (fields : List Field) : List Field :=
  fields.filter fun field => field.isWritten (entity.valueOf field.name) options

/-- The keys of the document of an entity, in order: those of its id, of the discriminator and
of the other fields, each where it is written. -/
def EntityModel.layout (model : EntityModel) (options : Options) (entity : Entity) :
    List String :=
  (options.written entity model.idField.toList).map Field.documentName ++
    model.activeKey.toList ++
    (options.written entity (model.fields.filter fun field => !field.isId)).map Field.documentName

namespace EntityModel.Checked

variable {model : EntityModel}

/-- The keys that a checked model may write, in the order in which it does, are apart. -/
theorem nodup_keys (checked : model.Checked) :
    (model.idField.toList.map Field.documentName ++ model.activeKey.toList ++
      (model.fields.filter fun field => !field.isId).map Field.documentName).Nodup := by
  have identifier : ∀ field, model.idField = some field →
      field ∈ model.fields ∧ field.isId = true := by
    intro field found
    exact ⟨List.mem_of_find?_eq_some found, by simpa using List.find?_some found⟩
  have others : ((model.fields.filter fun field => !field.isId).map Field.documentName).Nodup :=
    checked.storedApart.sublist (List.filter_sublist.map Field.documentName)
  have unmarked : ∀ key, model.activeKey = some key → ∀ field ∈ model.fields,
      field.documentName ≠ key := by
    intro key active field declared same
    exact checked.keyFree key active (same ▸ List.mem_map_of_mem declared)
  have unidentified : ∀ field, model.idField = some field → ∀ other ∈ model.fields,
      other.isId = false → field.documentName ≠ other.documentName := by
    intro field found other declared plain same
    obtain ⟨belongs, isId⟩ := identifier field found
    obtain rfl := List.inj_on_of_nodup_map checked.storedApart belongs declared same
    simp [isId] at plain
  refine List.nodup_append.mpr ⟨List.nodup_append.mpr ⟨?_, ?_, ?_⟩, others, ?_⟩
  · cases model.idField <;> simp
  · cases model.activeKey <;> simp
  · intro name member key active
    obtain ⟨field, found, rfl⟩ := List.mem_map.mp member
    have declared := (identifier field (by simpa using found)).1
    exact unmarked key (by simpa using active) field declared
  · intro name member other last
    obtain ⟨field, among, rfl⟩ := List.mem_map.mp last
    obtain ⟨declared, plain⟩ := List.mem_filter.mp among
    rcases List.mem_append.mp member with first | mark
    · obtain ⟨identity, found, rfl⟩ := List.mem_map.mp first
      exact unidentified identity (by simpa using found) field declared (by simpa using plain)
    · exact (unmarked name (by simpa using mark) field declared).symm

/-- No key stands in a layout twice. -/
theorem nodup_layout (checked : model.Checked) (options : Options) (entity : Entity) :
    (model.layout options entity).Nodup := by
  refine checked.nodup_keys.sublist ?_
  have kept : ∀ fields : List Field,
      ((options.written entity fields).map Field.documentName).Sublist
        (fields.map Field.documentName) :=
    fun fields => List.filter_sublist.map Field.documentName
  exact ((kept _).append (.refl _)).append (kept _)

end EntityModel.Checked

namespace Mapper

variable {mapper : Mapper}

/-- What is stored for a field: null for a null, and any other value as its codec writes it by
itself. -/
def StoresField (mapper : Mapper) (entity : Entity) (field : Field) (content : Bson) : Prop :=
  if (entity.valueOf field.name).isNull then content = .null
  else ∃ codec, field.resolved = .ok codec ∧ ∀ session,
    mapper.encodeValue codec (entity.valueOf field.name) session = (.ok content, session)

/-- The shape of the document of an entity of a model. -/
structure Shaped (mapper : Mapper) (model : EntityModel) (entity : Entity)
    (document : Document) : Prop where
  /-- The keys are those of the layout, in order. -/
  order : Keyed.keys document = model.layout mapper.options entity
  /-- No key is there twice. -/
  apart : Keyed.Distinct document
  /-- The discriminator is that of the model. -/
  marked : ∀ key, model.activeKey = some key →
    Keyed.get? key document = some (.string model.discriminator)
  /-- Every field that is written has its value stored under its key. -/
  stored : ∀ field ∈ model.fields, field.isWritten (entity.valueOf field.name) mapper.options →
    ∃ content, Keyed.get? field.documentName document = some content ∧
      mapper.StoresField entity field content

/-- Entries added for the fields of a list: one for each that is written, in order. -/
structure Adds (mapper : Mapper) (entity : Entity) (fields : List Field)
    (added : Document) : Prop where
  /-- The keys are those of the fields that are written. -/
  order : Keyed.keys added = (mapper.options.written entity fields).map Field.documentName
  /-- Every field that is written has its value stored under its key. -/
  stored : ∀ field ∈ mapper.options.written entity fields, ∃ content,
    (field.documentName, content) ∈ added ∧ mapper.StoresField entity field content

namespace Adds

variable {entity : Entity} {fields more : List Field} {added later : Document}

/-- An added key is that of a field. -/
theorem mem_keys (adds : mapper.Adds entity fields added) {key : String}
    (member : key ∈ Keyed.keys added) : ∃ field ∈ fields, field.documentName = key := by
  rw [adds.order] at member
  obtain ⟨field, written, same⟩ := List.mem_map.mp member
  exact ⟨field, (List.mem_filter.mp written).1, same⟩

/-- Entries added for two lists of fields one after the other. -/
theorem append (adds : mapper.Adds entity fields added) (others : mapper.Adds entity more later) :
    mapper.Adds entity (fields ++ more) (added ++ later) := by
  have both : mapper.options.written entity (fields ++ more) =
      mapper.options.written entity fields ++ mapper.options.written entity more :=
    List.filter_append ..
  constructor
  · rw [both, List.map_append, ← adds.order, ← others.order, Keyed.keys, List.map_append,
      Keyed.keys, Keyed.keys]
  · intro field member
    rw [both, List.mem_append] at member
    rcases member with first | second
    · obtain ⟨content, known, stores⟩ := adds.stored field first
      exact ⟨content, List.mem_append_left _ known, stores⟩
    · obtain ⟨content, known, stores⟩ := others.stored field second
      exact ⟨content, List.mem_append_right _ known, stores⟩

end Adds

/-- What a codec writes for a value by itself is its stored form. -/
theorem encodeValue_eq (mapper : Mapper) (codec : Codec) (value : Value) (session : Session) :
    mapper.encodeValue codec value session =
      perform (Stored.value mapper.context value codec) session := by
  obtain ⟨writer, ran, stands⟩ :=
    Encoding.writes_value mapper.context value codec Writer.Ready.root session
  rw [perform] at ran
  rw [encodeValue, ran]
  rcases outcome : perform (Stored.value mapper.context value codec) session with
    ⟨cause | stored, after⟩
  · rfl
  · rw [outcome] at stands
    rw [stands stored rfl]
    rfl

namespace Silent

variable {model : EntityModel} {entity : Entity}

/-- What is stored for a field is its value as its codec writes it. -/
theorem content_stores (silent : mapper.Silent) (field : Field) :
    Ensures (Stored.content model field
      (Keyed.get? field.name (Stored.forms mapper.context entity.properties)))
      (mapper.StoresField entity field) := by
  have value : entity.valueOf field.name =
      (Keyed.get? field.name entity.properties).getD .null := rfl
  unfold StoresField
  rw [Stored.get?_forms, value]
  cases found : Keyed.get? field.name entity.properties with
  | none => exact Ensures.pure rfl
  | some one =>
    have steady : ∀ codec, Steady (Stored.value mapper.context one codec) :=
      @value_steady mapper.context silent one
    have whole : Ensures (do
        let codec ← SessionM.ofExcept field.resolved
        tryCatch (Stored.value mapper.context one codec) fun cause =>
          throw (.encoding model.name field.name cause)) fun content =>
        ∃ codec, field.resolved = .ok codec ∧ ∀ session,
          mapper.encodeValue codec one session = (.ok content, session) := by
      refine (SessionM.ensures_ofExcept _).bind fun codec resolved => ?_
      refine Ensures.tryCatch ?_ fun cause => Ensures.throw
      refine (steady codec).ensures.weaken fun content yields => ⟨codec, resolved, ?_⟩
      intro session
      rw [encodeValue_eq, yields session]
    cases one with
    | null => exact Ensures.pure rfl
    | _ => exact whole

/-- Storing a field under a new key adds its entry, if it is written. -/
theorem property_adds (silent : mapper.Silent) {field : Field} {start : Document}
    (fresh : field.documentName ∉ Keyed.keys start) :
    Ensures (Stored.property mapper.options model
        (Stored.forms mapper.context entity.properties) start field) fun next =>
      ∃ added, next = start ++ added ∧ mapper.Adds entity [field] added := by
  have value : ((Keyed.get? field.name
      (Stored.forms mapper.context entity.properties)).map Prod.fst).getD .null =
      entity.valueOf field.name := by
    rw [Stored.get?_forms, Option.map_map]
    simp [Function.comp_def, Entity.valueOf, Entity.get?]
  unfold Stored.property
  dsimp only
  rw [value]
  split
  · rename_i written
    have kept : mapper.options.written entity [field] = [field] := by
      simp [Options.written, written]
    refine (silent.content_stores field).bind fun content stores => Ensures.pure ?_
    refine ⟨[(field.documentName, content)], Keyed.insert_new fresh content, ?_, ?_⟩
    · simp [kept, Keyed.keys]
    · rw [kept, List.forall_mem_singleton]
      exact ⟨content, by simp, stores⟩
  · rename_i unwritten
    have left : mapper.options.written entity [field] = [] := by
      simp [Options.written, unwritten]
    refine Ensures.pure ⟨[], by simp, ?_, ?_⟩
    · simp [left, Keyed.keys]
    · simp [left]

/-- Storing fields under new keys adds an entry for each that is written, in order. -/
theorem fields_add (silent : mapper.Silent) {fields : List Field}
    (apart : (fields.map Field.documentName).Nodup) {start : Document}
    (fresh : ∀ field ∈ fields, field.documentName ∉ Keyed.keys start) :
    Ensures (fields.foldlM (Stored.property mapper.options model
        (Stored.forms mapper.context entity.properties)) start) fun last =>
      ∃ added, last = start ++ added ∧ mapper.Adds entity fields added := by
  induction fields generalizing start with
  | nil =>
    rw [List.foldlM_nil]
    exact Ensures.pure ⟨[], by simp, rfl, by simp [Options.written]⟩
  | cons field rest ih =>
    obtain ⟨unseen, others⟩ := List.nodup_cons.mp apart
    rw [List.foldlM_cons]
    refine (silent.property_adds (fresh field (by simp))).bind fun next stepped => ?_
    obtain ⟨first, rfl, adds⟩ := stepped
    have later : ∀ other ∈ rest, other.documentName ∉ Keyed.keys (start ++ first) := by
      intro other member again
      rw [Keyed.keys, List.map_append, List.mem_append] at again
      rcases again with before | here
      · exact fresh other (by simp [member]) before
      · obtain ⟨one, among, same⟩ := adds.mem_keys here
        obtain rfl := List.mem_singleton.mp among
        exact unseen (same ▸ List.mem_map_of_mem member)
    refine (ih others later).weaken fun last walked => ?_
    obtain ⟨added, rfl, more⟩ := walked
    exact ⟨first ++ added, by rw [List.append_assoc], adds.append more⟩

/-- The document of an entity of a checked model has its shape. -/
theorem entries_shaped (silent : mapper.Silent) (checked : model.Checked) :
    Ensures (Stored.entries mapper.options model (Stored.forms mapper.context entity.properties) [])
      (mapper.Shaped model entity) := by
  obtain ⟨front, others, disjoint⟩ := List.nodup_append.mp checked.nodup_keys
  obtain ⟨single, -, unmarked⟩ := List.nodup_append.mp front
  refine (silent.fields_add single (by simp [Keyed.keys])).bind fun first walked => ?_
  obtain ⟨ids, same, identified⟩ := walked
  obtain rfl : first = ids := by simpa using same
  have marks : Stored.marked model first = first ++
      model.activeKey.toList.map fun key => (key, Bson.string model.discriminator) := by
    unfold Stored.marked
    cases active : model.activeKey with
    | none => simp
    | some key =>
      refine Keyed.insert_new (fun known => ?_) _
      obtain ⟨field, member, named⟩ := identified.mem_keys known
      have clash := unmarked _ (List.mem_map_of_mem member) key (by simp [active])
      exact clash named
  have fresh : ∀ field ∈ model.fields.filter fun field => !field.isId,
      field.documentName ∉ Keyed.keys (Stored.marked model first) := by
    intro field member known
    have earlier : field.documentName ∈ model.idField.toList.map Field.documentName ++
        model.activeKey.toList := by
      rw [marks, Keyed.keys, List.map_append, List.mem_append] at known
      rcases known with before | mark
      · obtain ⟨one, among, named⟩ := identified.mem_keys before
        exact List.mem_append_left _ (List.mem_map.mpr ⟨one, among, named⟩)
      · exact List.mem_append_right _ (by simpa using mark)
    exact disjoint _ earlier _ (List.mem_map_of_mem member) rfl
  refine (silent.fields_add others fresh).weaken fun last walked => ?_
  obtain ⟨added, rfl, adds⟩ := walked
  rw [marks]
  have order : Keyed.keys (first ++ (model.activeKey.toList.map fun key =>
      (key, Bson.string model.discriminator)) ++ added) = model.layout mapper.options entity := by
    rw [EntityModel.layout, ← identified.order, ← adds.order]
    simp [Keyed.keys, Function.comp_def]
  have apart : Keyed.Distinct (first ++ (model.activeKey.toList.map fun key =>
      (key, Bson.string model.discriminator)) ++ added) := by
    rw [Keyed.Distinct, order]
    exact checked.nodup_layout mapper.options entity
  refine ⟨order, apart, fun key active => ?_, fun field declared written => ?_⟩
  · exact Keyed.get?_of_mem apart (by simp [active])
  · have located : ∃ content, (field.documentName, content) ∈ first ++
        (model.activeKey.toList.map fun key => (key, Bson.string model.discriminator)) ++ added ∧
          mapper.StoresField entity field content := by
      cases identifier : field.isId with
      | true =>
        have member := checked.mem_idField declared identifier
        obtain ⟨content, known, stores⟩ :=
          identified.stored field (List.mem_filter.mpr ⟨member, written⟩)
        exact ⟨content, by simp [known], stores⟩
      | false =>
        have member : field ∈ model.fields.filter fun field => !field.isId :=
          List.mem_filter.mpr ⟨declared, by simp [identifier]⟩
        obtain ⟨content, known, stores⟩ :=
          adds.stored field (List.mem_filter.mpr ⟨member, written⟩)
        exact ⟨content, by simp [known], stores⟩
    obtain ⟨content, known, stores⟩ := located
    exact ⟨content, Keyed.get?_of_mem apart known, stores⟩

end Silent

/-- A mapper without hooks stores an entity in a document of its shape: the entity as the call
leaves it, by the model of its kind, which has a key for the discriminator if it uses one. -/
theorem toDocument_shaped {plan : MapperPlan} {entity : Entity} {session : Session}
    {document : Document} (built : plan.assemble = .ok mapper) (silent : mapper.Silent)
    (stored : (mapper.toDocument entity session).outcome = .ok document) :
    ∃ model, mapper.model? entity.kind = some model ∧
      (model.usesDiscriminator = true → ∃ key, model.activeKey = some key) ∧
      mapper.Shaped model (mapper.toDocument entity session).entity document := by
  have sound := MapperPlan.sound_of_assemble built
  have knows := MapperPlan.knowsKeys_of_assemble built
  cases located : mapper.model? entity.kind with
  | none =>
    rw [toDocument_unknown located] at stored
    cases stored
  | some model =>
    have member := (model?_some located).1
    refine ⟨model, rfl, knows.activeKey member, ?_⟩
    rw [toDocument_eq located] at stored ⊢
    dsimp only at stored ⊢
    generalize Encoding.assignId mapper.options model entity session = assigned at stored ⊢
    obtain ⟨given, after⟩ := assigned
    have form := @Silent.ofModel mapper.context model silent member given
      (Stored.forms mapper.context given.properties)
    dsimp only at stored ⊢
    rw [form] at stored
    exact silent.entries_shaped (sound.checked model member) after document _ (Prod.ext stored rfl)

/-- Books with a title, tags, an id and a note that is stored also where there is none. -/
def notedBooks : MapperPlan :=
  ⟨.standard, [{ EntityModel.blank "Book" with
    fields := [(Field.plain "title" (.scalar .string)).storedAs "t",
      .plain "tags" (.list (.scalar .string)), .id "id" (.scalar .objectId),
      (Field.plain "note" (.scalar .string)).nullable] }], [], []⟩

/-- A book without tags and without a note is given an id, which comes first; its empty list is
left out, and its note is stored as null. -/
theorem toDocument_shaped_book : ∃ mapper document model,
    let book := ((Entity.empty "Book").set "title" (.string "Ada")).set "tags" (.array [])
    let encoded := mapper.toDocument book (.start fun _ => ⟨7⟩)
    notedBooks.assemble = .ok mapper ∧ mapper.Silent ∧ encoded.outcome = .ok document ∧
      document = [("_id", .objectId ⟨7⟩), ("_t", .string "Book"), ("t", .string "Ada"),
        ("note", .null)] ∧
      mapper.model? "Book" = some model ∧ mapper.Shaped model encoded.entity document := by
  obtain ⟨mapper, built⟩ : ∃ mapper, notedBooks.assemble = .ok mapper := ⟨_, rfl⟩
  have silent : mapper.Silent := by
    cases built
    refine ⟨rfl, fun model registered kind => ?_⟩
    obtain rfl := List.mem_singleton.mp registered
    rfl
  have stored : (do
      let mapper ← notedBooks.assemble
      (mapper.toDocument
        (((Entity.empty "Book").set "title" (.string "Ada")).set "tags" (.array []))
        (.start fun _ => ⟨7⟩)).outcome) = .ok [("_id", .objectId ⟨7⟩), ("_t", .string "Book"),
          ("t", .string "Ada"), ("note", .null)] := by decide +kernel
  rw [built] at stored
  obtain ⟨model, found, -, shaped⟩ := toDocument_shaped built silent stored
  exact ⟨mapper, _, model, built, silent, stored, rfl, found, shaped⟩

end Mapper

end EntityMapping
