import EntityMapping.Decidable
import EntityMapping.Model.Declaration
import EntityMapping.Proofs.Encoding.Success
import EntityMapping.Proofs.Encoding.Writing
import EntityMapping.Proofs.Mapper.Entries
import EntityMapping.Proofs.Mapper.Placed
/-!
# What is stored comes back

Whatever a mapper without hooks stores for an entity, it reads back as an alike one,
for every setting of the options. The discriminator in the document chooses the model
that wrote it, and the fields of that model read back what they stored; the induction
is over the regular value that is stored.
-/

namespace EntityMapping

namespace Mapper

variable {mapper : Mapper}

/-- The discriminator of a model stands for the model. -/
theorem Sound.modelForDiscriminator (sound : mapper.Sound) {model : EntityModel}
    (member : model ∈ mapper.models) {key : String} (active : model.activeKey = some key)
    (declared : String) :
    mapper.modelForDiscriminator declared model.discriminator = .ok model := by
  have used : model.usesDiscriminator = true := by
    unfold EntityModel.activeKey at active
    split at active
    · assumption
    · cases active
  rw [Mapper.modelForDiscriminator, sound.marked model member used, Option.bind_some,
    sound.model?_of_mem member]

/-- A document chooses the model that wrote it, where that model may stand for the declared
one. -/
theorem Compatible.modelOfDocument (sound : mapper.Sound) {declared model : EntityModel}
    (registered : declared ∈ mapper.models) {kind : String}
    (found : mapper.model? kind = some model) (compatible : mapper.Compatible kind declared.name)
    {document : Document} (marked : ∀ key, model.activeKey = some key →
      Keyed.get? key document = some (.string model.discriminator)) :
    Decoding.modelOfDocument mapper declared document = .ok model := by
  have member := (model?_some found).1
  have own := sound.model?_of_mem registered
  have shared : ∀ key, declared.activeKey = some key → model.activeKey = some key →
      Decoding.modelOfDocument mapper declared document = .ok model := by
    intro key declaredActive active
    rw [Decoding.modelOfDocument, declaredActive]
    dsimp only
    rw [marked key active]
    exact sound.modelForDiscriminator member active declared.name
  rcases compatible with rfl | ⟨_, other, key, here, there, active, otherActive⟩
  · obtain rfl := Option.some.inj (found.symm.trans own)
    cases inactive : model.activeKey with
    | none => rw [Decoding.modelOfDocument, inactive]
    | some key => exact shared key inactive inactive
  · obtain rfl := Option.some.inj (found.symm.trans here)
    obtain rfl := Option.some.inj (own.symm.trans there)
    exact shared key otherActive active

/-- A kind that another may stand for is registered. -/
theorem Compatible.registered {kind declared : String} {model : EntityModel}
    (compatible : mapper.Compatible kind declared) (found : mapper.model? kind = some model) :
    ∃ other, mapper.model? declared = some other := by
  rcases compatible with rfl | ⟨-, other, -, -, located, -, -⟩
  · exact ⟨model, found⟩
  · exact ⟨other, located⟩

end Mapper

namespace Stored

variable {context : MappingContext}

/-- An entity is stored in a document that holds it. -/
theorem entity_holds (sound : context.mapper.Sound) (silent : context.mapper.Silent)
    (typed : context.mapper.Typed) {kind : String} {properties : List (String × Value)}
    {model : EntityModel} (found : context.mapper.model? kind = some model)
    (filled : ∀ entry ∈ properties, entry.2 ≠ .null)
    (placed : ∀ entry ∈ properties, ∀ field ∈ model.fields, field.name = entry.1 →
      context.mapper.Placed entry.2 field.type)
    (each : ∀ entry ∈ properties, ∀ type codec, context.mapper.registry.codec type = .ok codec →
      type.hasAny = false → context.mapper.Placed entry.2 type →
      Ensures (Stored.value context entry.2 codec) (ReadsBack context codec entry.2)) :
    Ensures (ofModel context model ⟨kind, properties⟩ (forms context properties))
      (Holds context model properties) := by
  have member := (Mapper.model?_some found).1
  rw [silent.ofModel member]
  refine entries_holds _ (sound.checked model member) filled
    fun field declared value codec stored resolved => ?_
  have entry := Keyed.mem_of_get? stored
  obtain ⟨assigned, known, coded⟩ := sound.resolved model member field declared
  have same : assigned = codec := by simpa [Field.resolved, known] using resolved
  subst same
  exact each _ entry field.type assigned coded (typed model member field declared)
    (placed _ entry field declared rfl)

end Stored

namespace Meaning

variable {context : MappingContext}

/-- A document that holds an entity is read as an alike one, whichever compatible kind is
declared. -/
theorem entity_back (sound : context.mapper.Sound) (silent : context.mapper.Silent)
    {declared model : EntityModel} (registered : declared ∈ context.mapper.models)
    {kind : String} {properties : List (String × Value)}
    (found : context.mapper.model? kind = some model)
    (compatible : context.mapper.Compatible kind declared.name)
    (apart : Keyed.Distinct properties) (filled : ∀ entry ∈ properties, entry.2 ≠ .null)
    (known : ∀ entry ∈ properties, entry.1 ∈ model.fields.map Field.name)
    {document : Document} (holds : Holds context model properties document) {depth : Nat}
    (enough : ∀ entry ∈ document, entry.2.tokens.length ≤ depth) :
    ∃ back, Yields (Meaning.entity context (value context depth) declared false document) back ∧
      (Value.ofEntity back).Alike (.entity kind properties) := by
  obtain ⟨member, rfl⟩ := Mapper.model?_some found
  obtain ⟨back, yields, alike⟩ :=
    properties_back (sound.checked model member) apart filled known holds enough
  refine ⟨back, ?_, alike⟩
  rw [silent.entity registered, compatible.modelOfDocument sound registered found holds.marked]
  exact (Yields.pure model).bind yields

end Meaning

/-- An entity reads back where its properties do, in a place where its kind may stand. -/
theorem ReadsBack.entity_readsBack {context : MappingContext} (sound : context.mapper.Sound)
    (silent : context.mapper.Silent) (typed : context.mapper.Typed) {kind name : String}
    {properties : List (String × Value)} {model : EntityModel}
    (found : context.mapper.model? kind = some model)
    (compatible : context.mapper.Compatible kind name)
    (apart : Keyed.Distinct properties) (filled : ∀ entry ∈ properties, entry.2 ≠ .null)
    (known : ∀ entry ∈ properties, entry.1 ∈ model.fields.map Field.name)
    (placed : ∀ entry ∈ properties, ∀ field ∈ model.fields, field.name = entry.1 →
      context.mapper.Placed entry.2 field.type)
    (each : ∀ entry ∈ properties, ∀ type codec, context.mapper.registry.codec type = .ok codec →
      type.hasAny = false → context.mapper.Placed entry.2 type →
      Ensures (Stored.value context entry.2 codec) (ReadsBack context codec entry.2)) :
    Ensures (Stored.value context (.entity kind properties) (.entity name))
      (ReadsBack context (.entity name) (.entity kind properties)) := by
  rw [Stored.value]
  refine (SessionM.ensures_ofExcept _).bind fun declared located => ?_
  obtain ⟨registered, rfl⟩ := Mapper.model?_some (Mapper.model_ok.mp located)
  rw [Stored.entity, Stored.modelFor_eq sound registered found]
  refine Ensures.map ((Stored.entity_holds sound silent typed found filled placed each).weaken
    fun document holds => ⟨by simp [Bson.elementType], fun depth enough => ?_⟩)
  obtain ⟨level, rfl⟩ := level_of_enough enough
  have shorter : ∀ entry ∈ document, entry.2.tokens.length ≤ level := by
    intro entry member
    have part := Bson.tokens_length_entry member
    omega
  obtain ⟨back, yields, alike⟩ := Meaning.entity_back sound silent registered found
    compatible apart filled known holds shorter
  refine ⟨Value.ofEntity back, ?_, alike⟩
  rw [Meaning.value, Meaning.embedded, located]
  exact (Yields.pure declared).bind (yields.map Value.ofEntity)

/-- Every regular value in its place reads back. -/
theorem Value.Regular.readsBack {context : MappingContext} (sound : context.mapper.Sound)
    (silent : context.mapper.Silent) (typed : context.mapper.Typed) {subject : Value}
    (regular : subject.Regular) :
    ∀ type codec, context.mapper.registry.codec type = .ok codec → type.hasAny = false →
      context.mapper.Placed subject type →
      Ensures (Stored.value context subject codec) (ReadsBack context codec subject) := by
  induction regular with
  | single simple number =>
    intro type codec coded closed _
    rw [Stored.value_single simple]
    refine ReadsBack.plain_readsBack ?_ number
    rintro rfl
    rw [← Registry.fieldType_codec coded] at closed
    cases closed
  | array each ih =>
    intro type codec coded closed placed
    obtain rfl := Registry.fieldType_codec coded
    cases codec with
    | list element =>
      obtain ⟨_, inside, ⟨rfl⟩⟩ := ok_of_map coded
      rw [Stored.value]
      cases placed with
      | single simple => cases simple
      | array there =>
        exact ReadsBack.items_readsBack fun item member =>
          ih item member element.fieldType element inside closed (there _ rfl item member)
    | any => cases closed
    | scalar | map | entity =>
      unfold Stored.value
      exact Ensures.throw
  | map apart each ih =>
    intro type codec coded closed placed
    obtain rfl := Registry.fieldType_codec coded
    cases codec with
    | map element =>
      obtain ⟨_, inside, ⟨rfl⟩⟩ := ok_of_map coded
      rw [Stored.value]
      cases placed with
      | single simple => cases simple
      | map there =>
        exact ReadsBack.named_readsBack apart fun entry member =>
          ih entry member element.fieldType element inside closed (there _ rfl entry member)
    | any => cases closed
    | scalar | list | entity =>
      unfold Stored.value
      exact Ensures.throw
  | entity apart filled each ih =>
    intro type codec coded closed placed
    obtain rfl := Registry.fieldType_codec coded
    cases codec with
    | entity name =>
      cases placed with
      | single simple => cases simple
      | entity compatible found known there =>
        exact ReadsBack.entity_readsBack sound silent typed found (compatible _ rfl) apart filled
          known there ih
    | any => cases closed
    | scalar | list | map =>
      unfold Stored.value
      exact Ensures.throw

namespace Mapper

variable {mapper : Mapper}

/-- The id that an entity may be given keeps it regular and in its place. -/
theorem Placed.assignId {entity : Entity} {type : FieldType} {model : EntityModel}
    (found : mapper.model? entity.kind = some model) (options : Options) (session : Session)
    (regular : (Value.ofEntity entity).Regular) (placed : mapper.Placed (.ofEntity entity) type) :
    (Value.ofEntity (Encoding.assignId options model entity session).1).Regular ∧
      mapper.Placed (.ofEntity (Encoding.assignId options model entity session).1) type := by
  unfold Encoding.assignId
  split
  · rename_i field needed
    have declared := (Encoding.needsId_some needed).1
    exact ⟨regular.set field.name (.single rfl (by simp)),
      placed.set found (List.mem_map_of_mem declared) fun _ _ _ => .single rfl _⟩
  · exact ⟨regular, placed⟩

/-- What a mapper without hooks stores for an entity comes back as an equal one. -/
theorem fromDocument_toDocument {plan : MapperPlan} {entity : Entity} {declared : String}
    {document : Document} {session later : Session} (built : plan.assemble = .ok mapper)
    (silent : mapper.Silent) (typed : mapper.Typed) (regular : (Value.ofEntity entity).Regular)
    (placed : mapper.Placed (.ofEntity entity) (.entity declared))
    (stored : (mapper.toDocument entity session).outcome = .ok document) :
    ∃ back, (mapper.fromDocument declared document later).1 = .ok back ∧
      back.same (mapper.toDocument entity session).entity = true ∧
      (mapper.toDocument entity session).entity.same back = true := by
  have sound := MapperPlan.sound_of_assemble built
  obtain ⟨model, found⟩ : ∃ model, mapper.model? entity.kind = some model := by
    cases placed with
    | single simple => cases simple
    | entity _ found => exact ⟨_, found⟩
  obtain ⟨given, there⟩ := placed.assignId found mapper.options session regular
  have same := Encoding.assignId_kind mapper.options model entity session
  rw [toDocument_eq found] at stored ⊢
  dsimp only at stored ⊢
  generalize Encoding.assignId mapper.options model entity session = assigned at *
  obtain ⟨⟨kind, properties⟩, after⟩ := assigned
  obtain rfl : kind = entity.kind := same
  cases given with
  | single simple => cases simple
  | entity apart filled each =>
    cases there with
    | single simple => cases simple
    | entity compatible registered known parts =>
      obtain rfl := Option.some.inj (found.symm.trans registered)
      obtain ⟨other, located⟩ := (compatible declared rfl).registered found
      obtain ⟨among, rfl⟩ := model?_some located
      have holds := Stored.entity_holds sound silent typed found filled parts
        (fun entry member => (each entry member).readsBack sound silent typed) after document _
        (Prod.ext stored rfl)
      let depth := Decoding.depthFor (Reader.ofDocument document)
      have enough : ∀ entry ∈ document, entry.2.tokens.length ≤ depth := by
        intro entry member
        have part := Bson.tokens_length_entry member
        have whole : (Bson.document document).tokens.length + Hook.nestingLimit = depth := rfl
        omega
      obtain ⟨back, yields, alike⟩ := @Meaning.entity_back mapper.context sound silent _ _ among _
        _ found (compatible _ rfl) apart filled known _ holds _ enough
      refine ⟨back, ?_, alike⟩
      rw [fromDocument_eq, model_ok.mpr located]
      exact congrArg Prod.fst (((Yields.pure other).bind yields) later)

/-- Books with an id and a sequel, and novels, which are books. -/
def sequels : MapperPlan :=
  let book := ((EntityModel.blank "Book").declare (.field (.id "id" (.scalar .objectId)))).declare
    (.field (.plain "sequel" (.entity "Book")))
  ⟨.standard, [book, (EntityModel.blank "Novel").inherit book], [], []⟩

/-- A novel without an id, with another novel as its sequel. -/
def novelWithSequel : Entity :=
  (Entity.empty "Novel").set "sequel" (.ofEntity (.empty "Novel"))

/-- A novel may stand where a book is declared, also as a sequel. -/
theorem novelWithSequel_placed (built : sequels.assemble = .ok mapper) :
    mapper.Placed (.ofEntity novelWithSequel) (.entity "Book") := by
  obtain ⟨novel, book, key, found, other, active, otherActive, declared⟩ :
      ∃ novel book key, mapper.model? "Novel" = some novel ∧ mapper.model? "Book" = some book ∧
        novel.activeKey = some key ∧ book.activeKey = some key ∧
        novel.fields.map (fun field => (field.name, field.type)) =
          [("id", .scalar .objectId), ("sequel", .entity "Book")] := by
    cases built
    exact ⟨_, _, _, rfl, rfl, rfl, rfl, rfl⟩
  have anywhere : mapper.Placed (.ofEntity (.empty "Novel")) (.entity "Book") := by
    refine Placed.empty found fun name same => ?_
    obtain rfl : "Book" = name := by simpa using same
    exact .inr ⟨novel, book, key, found, other, active, otherActive⟩
  refine anywhere.set found ?_ fun field member same => ?_
  · have names := congrArg (List.map Prod.fst) declared
    rw [List.map_map] at names
    exact names ▸ (by simp : "sequel" ∈ ["id", "sequel"])
  · have known : (field.name, field.type) ∈ [("id", FieldType.scalar .objectId),
        ("sequel", .entity "Book")] := declared ▸ List.mem_map_of_mem member
    obtain same : field.type = .entity "Book" := by simpa [same] using known
    rw [same]
    exact anywhere

/-- A novel with a novel as its sequel is given an id, is stored with the discriminators of
both, and comes back where a book is requested. -/
theorem fromDocument_toDocument_novel : ∃ mapper document,
    sequels.assemble = .ok mapper ∧ mapper.Silent ∧ mapper.Typed ∧
      (Value.ofEntity novelWithSequel).Regular ∧
      mapper.Placed (.ofEntity novelWithSequel) (.entity "Book") ∧
      (mapper.toDocument novelWithSequel (.start fun _ => ⟨0⟩)).outcome = .ok document ∧
      document = [("_id", .objectId ⟨0⟩), ("_t", .string "Novel"),
        ("sequel", .document [("_t", .string "Novel")])] ∧
      ∃ back, (mapper.fromDocument "Book" document (.start fun _ => ⟨0⟩)).1 = .ok back ∧
        back.same (mapper.toDocument novelWithSequel (.start fun _ => ⟨0⟩)).entity = true ∧
        (mapper.toDocument novelWithSequel (.start fun _ => ⟨0⟩)).entity.same back = true := by
  obtain ⟨mapper, built⟩ : ∃ mapper, sequels.assemble = .ok mapper := ⟨_, rfl⟩
  have stored : (do
      let mapper ← sequels.assemble
      (mapper.toDocument novelWithSequel (.start fun _ => ⟨0⟩)).outcome) =
      .ok [("_id", .objectId ⟨0⟩), ("_t", .string "Novel"),
        ("sequel", .document [("_t", .string "Novel")])] := by decide +kernel
  rw [built] at stored
  have silent : mapper.Silent := by
    cases built
    refine ⟨rfl, fun model registered kind => ?_⟩
    rcases List.mem_cons.mp registered with rfl | last
    · rfl
    · obtain rfl := List.mem_singleton.mp last
      rfl
  have typed : mapper.Typed := by
    cases built
    decide
  have regular : (Value.ofEntity novelWithSequel).Regular :=
    (Value.Regular.empty "Novel").set "sequel" (Value.Regular.empty "Novel")
  exact ⟨mapper, _, built, silent, typed, regular, novelWithSequel_placed built, stored, rfl,
    fromDocument_toDocument built silent typed regular (novelWithSequel_placed built) stored⟩

end Mapper

end EntityMapping
