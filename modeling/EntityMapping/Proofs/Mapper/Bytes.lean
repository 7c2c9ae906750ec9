import EntityMapping.Decidable
import EntityMapping.Proofs.Bson.Bytes
import EntityMapping.Proofs.Encoding.Shape
/-!
# Entities as bytes

The bytes of an entity are those of its document. Without hooks they are there wherever
the document is, unless a name, a pattern or pattern options in it hold a NUL, and an
entity is read from them as it is read from the document, with the options of patterns
in the order of their characters. A property may hold a document value as it was
stored; the documents in it, as every document, do not store a name twice, and then the
document of the entity does not either.
-/

namespace EntityMapping

/-- The document values that a value holds as they were stored keep names apart. -/
inductive Value.Apart : Value → Prop
  /-- A value without parts is a document value, or there is none in it. -/
  | single {value : Value} (simple : value.isSingle = true)
      (raw : ∀ stored, value = .other stored → stored.Apart) : Apart value
  /-- The items of a list do. -/
  | array {items : List Value} (each : ∀ item ∈ items, Apart item) : Apart (.array items)
  /-- The entries of a map do. -/
  | map {entries : List (String × Value)} (each : ∀ entry ∈ entries, Apart entry.2) :
      Apart (.map entries)
  /-- The properties of an entity do. -/
  | entity {kind : String} {properties : List (String × Value)}
      (each : ∀ entry ∈ properties, Apart entry.2) : Apart (.entity kind properties)

/-- The document values that an entity holds as they were stored keep names apart. -/
def Entity.Apart (entity : Entity) : Prop :=
  ∀ entry ∈ entity.properties, entry.2.Apart

/-- An id that an entity is given is no document value. -/
theorem Entity.Apart.assignId {entity : Entity} (apart : entity.Apart) (options : Options)
    (model : EntityModel) (session : Session) :
    (Encoding.assignId options model entity session).1.Apart := by
  unfold Encoding.assignId
  split
  · intro entry member
    rcases Entity.mem_set member with ⟨rfl, -⟩ | old
    · exact .single rfl fun stored other => by cases other
    · exact apart entry old
  · exact apart

namespace Stored

variable {context : MappingContext}

/-- What a value of a scalar type is stored as has no parts. -/
theorem scalar?_single {type : ScalarType} {value : Value} {stored : Bson}
    (found : Encoding.scalar? type value = some stored) : stored.isSingle = true := by
  unfold Encoding.scalar? at found
  split at found <;> cases found <;> rfl

/-- What a value without parts is stored as has none, unless it is a document value. -/
theorem plain?_some {value : Value} {stored : Bson}
    (found : Encoding.plain? value = some stored) :
    stored.isSingle = true ∨ value = .other stored := by
  unfold Encoding.plain? at found
  split at found <;> cases found <;> first | exact .inl rfl | exact .inr rfl

/-- A value without parts is stored with names apart. -/
theorem plain_apart {value : Value}
    (raw : ∀ stored, value = .other stored → stored.Apart) (codec : Codec) :
    Ensures (plain value codec) Bson.Apart := by
  unfold plain
  dsimp only
  split
  · rename_i stored found
    refine Ensures.pure ?_
    split at found
    · exact .single (scalar?_single found)
    · exact (plain?_some found).elim .single (raw stored)
    · cases found
  · exact Ensures.throw

/-- A null is stored with names apart. -/
theorem orNull_apart (value : Value) {form : SessionM Bson} (apart : Ensures form Bson.Apart) :
    Ensures (orNull value form) Bson.Apart := by
  unfold orNull
  split
  · exact Ensures.pure (.single rfl)
  · exact apart

/-- A property is stored with names apart. -/
theorem content_apart (model : EntityModel) (field : Field) {properties : List (String × Value)}
    (each : ∀ entry ∈ properties, ∀ codec, Ensures (value context entry.2 codec) Bson.Apart) :
    Ensures (content model field (Keyed.get? field.name (forms context properties)))
      Bson.Apart := by
  rw [get?_forms]
  cases located : Keyed.get? field.name properties with
  | none => exact Ensures.pure (.single rfl)
  | some found =>
    have stored : Ensures (do
        let codec ← SessionM.ofExcept field.resolved
        tryCatch (value context found codec) fun cause =>
          throw (.encoding model.name field.name cause)) Bson.Apart := by
      refine (Ensures.trivial _).bind fun codec _ => Ensures.tryCatch ?_ fun _ => Ensures.throw
      exact each _ (Keyed.mem_of_get? located) codec
    cases found with
    | null => exact Ensures.pure (.single rfl)
    | _ => exact stored

/-- An entity is stored with names apart, over a document that keeps them apart. -/
theorem entries_apart (options : Options) (model : EntityModel)
    {properties : List (String × Value)}
    (each : ∀ entry ∈ properties, ∀ codec, Ensures (value context entry.2 codec) Bson.Apart)
    {start : Document} (begins : Bson.Apart (.document start)) :
    Ensures (entries options model (forms context properties) start)
      fun document => Bson.Apart (.document document) := by
  have walk : ∀ (fields : List Field) {document : Document}, Bson.Apart (.document document) →
      Ensures (fields.foldlM (property options model (forms context properties)) document)
        fun document => Bson.Apart (.document document) := by
    intro fields document begins
    refine Ensures.foldlM begins fun document apart field _ => ?_
    unfold property
    dsimp only
    split
    · refine (content_apart model field each).bind fun stored fresh => Ensures.pure ?_
      exact apart.insert fresh field.documentName
    · exact Ensures.pure apart
  refine (walk _ begins).bind fun document apart => walk _ ?_
  unfold marked
  split
  · exact apart.insert (.single rfl) _
  · exact apart

end Stored

namespace Mapper

variable {mapper : Mapper}

/-- A mapper without hooks stores an entity in an embedded document with names apart. -/
theorem Silent.entity_apart {context : MappingContext} (silent : context.mapper.Silent)
    {kind : String} {properties : List (String × Value)}
    (each : ∀ entry ∈ properties, ∀ codec,
      Ensures (Stored.value context entry.2 codec) Bson.Apart)
    (name : String) : Ensures (do
      let declared ← SessionM.ofExcept (context.mapper.model name)
      Bson.document <$> Stored.entity context declared ⟨kind, properties⟩
        (Stored.forms context properties)) Bson.Apart := by
  refine (SessionM.ensures_ofExcept _).bind fun declared located => Ensures.map ?_
  refine (SessionM.ensures_ofExcept _).bind fun model chosen => ?_
  rw [silent.ofModel (Encoding.modelFor_registered located chosen)]
  exact Stored.entries_apart _ model each .empty

/-- A mapper without hooks stores every value with names apart. -/
theorem Silent.value_apart {context : MappingContext} (silent : context.mapper.Silent)
    {subject : Value} (apart : subject.Apart) :
    ∀ codec, Ensures (Stored.value context subject codec) Bson.Apart := by
  induction apart with
  | single simple raw =>
    intro codec
    rw [Stored.value_single simple]
    exact Stored.plain_apart raw codec
  | @array values _ each =>
    intro codec
    have inside : ∀ inner,
        Ensures (Bson.array <$> Stored.items context values inner) Bson.Apart := by
      intro inner
      rw [Stored.items_eq]
      refine Ensures.map (Ensures.weaken (Ensures.mapM fun item member =>
        Stored.orNull_apart item (each item member inner)) fun stored apart => ?_)
      exact Bson.apart_array.mpr apart
    cases codec with
    | list element => rw [Stored.value]; exact inside element
    | any => rw [Stored.value]; exact inside .any
    | _ => simp only [Stored.value]; exact Ensures.throw
  | @map values _ each =>
    intro codec
    have inside : ∀ inner,
        Ensures (Bson.document <$> Stored.named context values inner []) Bson.Apart := by
      intro inner
      rw [Stored.named_eq]
      refine Ensures.map (Ensures.foldlM .empty fun document apart entry member => ?_)
      refine (Stored.orNull_apart entry.2 (each entry member inner)).bind fun stored fresh => ?_
      exact Ensures.pure (apart.insert fresh entry.1)
    cases codec with
    | map element => rw [Stored.value]; exact inside element
    | any => rw [Stored.value]; exact inside .any
    | _ => simp only [Stored.value]; exact Ensures.throw
  | @entity kind properties _ each =>
    intro codec
    cases codec with
    | entity name => rw [Stored.value]; exact silent.entity_apart each name
    | any => rw [Stored.value]; exact silent.entity_apart each kind
    | _ => simp only [Stored.value]; exact Ensures.throw

/-- A mapper without hooks stores an entity in a document that keeps names apart. -/
theorem toDocument_apart {entity : Entity} {session : Session} {document : Document}
    (silent : mapper.Silent) (apart : entity.Apart)
    (stored : (mapper.toDocument entity session).outcome = .ok document) :
    Bson.Apart (.document document) := by
  cases found : mapper.model? entity.kind with
  | none =>
    rw [toDocument_unknown found] at stored
    cases stored
  | some model =>
    have given := apart.assignId mapper.options model session
    rw [toDocument_eq found] at stored
    dsimp only at stored
    generalize Encoding.assignId mapper.options model entity session = assigned at stored given
    obtain ⟨given, after⟩ := assigned
    rw [@Silent.ofModel mapper.context model silent (model?_some found).1] at stored
    have ensured := Stored.entries_apart mapper.context.mapper.options model
      (fun entry member => @Silent.value_apart mapper.context silent _ (given entry member)) .empty
    exact ensured after document _ (Prod.ext stored rfl)

/-- A mapper without hooks gives the bytes of an entity where it gives its document, and fails as
that fails, or where a key, a pattern or pattern options anywhere in the document hold a NUL. From
the bytes, unless they are too many for a length, every kind is read as from the document with the
options of patterns in the order of their characters: the same entity or the same failure, and the
same session. -/
theorem fromBytes_toBytes {entity : Entity} {session : Session} (silent : mapper.Silent)
    (apart : entity.Apart) :
    let encoded := mapper.toDocument entity session
    let bytes := (mapper.toBytes entity session).1
    (∀ cause, encoded.outcome = .error cause → bytes = .error cause) ∧
      ∀ document, encoded.outcome = .ok document →
        (¬ Bson.Writable (.document document) → bytes = .error (.document .unwritable)) ∧
          (Bson.Writable (.document document) → ∃ written, bytes = .ok written ∧
            (written.length < 2147483648 → ∀ kind later,
              mapper.fromBytes kind written later =
                mapper.fromDocument kind (Bson.sortedEntries document) later)) := by
  refine ⟨fun cause failed => ?_, fun document stored => ⟨fun refused => ?_, fun writable => ?_⟩⟩
  · simp only [toBytes, failed]
  · simp only [toBytes, stored, (Wire.write_eq document).2 refused, Except.mapError]
  · obtain ⟨written, wrote⟩ := (Wire.write_eq document).1 writable
    refine ⟨written, by simp only [toBytes, stored, wrote, Except.mapError], ?_⟩
    intro small kind later
    have read := Wire.read_write wrote small (toDocument_apart silent apart stored)
    rw [fromBytes, read]

/-- Rules with a name and a test, which may be a document value as it was stored. -/
def testedRules : MapperPlan :=
  ⟨.standard, [{ EntityModel.blank "Rule" with
    fields := [.plain "name" (.scalar .string), .plain "test" .any] }], [], []⟩

/-- A rule tested by code with a pattern in its scope. -/
def testedRule : Entity :=
  ((Entity.empty "Rule").set "name" (.string "né")).set "test"
    (.other (.scopedCode "f" [("p", .regex "a" "xi")]))

/-- The document of the rule, with the given options of its pattern. -/
def testedDocument (options : String) : Document :=
  [("_t", .string "Rule"), ("name", .string "né"),
    ("test", .scopedCode "f" [("p", .regex "a" options)])]

/-- The rule has sixty-one bytes and is read from them as from its document, with the options of
the pattern in order. -/
theorem fromBytes_toBytes_rule : ∃ mapper bytes,
    testedRules.assemble = .ok mapper ∧ mapper.Silent ∧ testedRule.Apart ∧
      (mapper.toBytes testedRule (.start fun _ => ⟨7⟩)).1 = .ok bytes ∧ bytes.length = 61 ∧
      ∀ kind later,
        mapper.fromBytes kind bytes later =
          mapper.fromDocument kind (testedDocument "ix") later := by
  obtain ⟨mapper, built⟩ : ∃ mapper, testedRules.assemble = .ok mapper := ⟨_, rfl⟩
  have silent : mapper.Silent := by
    cases built
    refine ⟨rfl, fun model registered kind => ?_⟩
    obtain rfl := List.mem_singleton.mp registered
    rfl
  have scope : Bson.Apart (.scopedCode "f" [("p", .regex "a" "xi")]) := by
    refine Bson.each_scopedCode.mpr ⟨trivial, Bson.each_document.mpr ⟨List.nodup_singleton _, ?_⟩⟩
    exact List.forall_mem_singleton.mpr (Bson.Apart.single rfl)
  have apart : testedRule.Apart := by
    intro entry member
    rcases List.mem_cons.mp member with rfl | other
    · exact .single rfl fun stored raw => by cases raw
    · obtain rfl := List.mem_singleton.mp other
      refine .single rfl fun stored raw => ?_
      obtain rfl := Value.other.inj raw
      exact scope
  have stored : (do
      let mapper ← testedRules.assemble
      (mapper.toDocument testedRule (.start fun _ => ⟨7⟩)).outcome) =
        .ok (testedDocument "xi") := by decide +kernel
  rw [built] at stored
  change (mapper.toDocument testedRule (.start fun _ => ⟨7⟩)).outcome = _ at stored
  have gives := (@fromBytes_toBytes mapper testedRule (.start fun _ => ⟨7⟩) silent apart).2 _ stored
  have settled : Wire.sortOptions "xi" = "ix" := by simp [Wire.sortOptions, List.mergeSort]
  have counted : (Wire.write (testedDocument "xi")).map List.length = .ok 61 := by
    simp only [Wire.write, testedDocument, Wire.entryBytes, Wire.payload, settled]
    decide +kernel
  have ordered : Bson.sortedEntries (testedDocument "xi") = testedDocument "ix" := by
    simp only [testedDocument, Bson.sortedEntries, Bson.sorted, settled]
  obtain ⟨bytes, written, length⟩ := ok_of_map counted
  have wrote : (mapper.toBytes testedRule (.start fun _ => ⟨7⟩)).1 = .ok bytes := by
    simp only [toBytes, stored, written, Except.mapError]
  obtain ⟨_, same, read⟩ := gives.2 (by
    by_contra refused
    cases wrote.symm.trans (gives.1 refused))
  obtain rfl := Except.ok.inj (wrote.symm.trans same)
  rw [ordered] at read
  exact ⟨mapper, bytes, built, silent, apart, wrote, length, read (by omega)⟩

end Mapper

end EntityMapping
