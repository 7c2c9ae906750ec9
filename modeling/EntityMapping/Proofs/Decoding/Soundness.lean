import EntityMapping.Proofs.Decoding.Kind
import EntityMapping.Proofs.Encoding.Success
import EntityMapping.Proofs.Mapper.Conforms
/-!
# Decoding is type sound

Whatever a document holds, a value that a codec reads conforms to the type of the
codec, and a decoded entity is sound. Hooks may change documents at will: they never
see an entity before its properties are set. A sound entity can be encoded again
where no hook runs and no two fields of a model share a property.
-/

namespace EntityMapping

namespace Mapper

variable {mapper : Mapper}

/-- A sound entity stays sound when a property is set to null or to a value of the type of
its field. -/
theorem SoundEntity.set {entity : Entity} {model : EntityModel} {field : Field} {value : Value}
    (sound : mapper.SoundEntity entity) (found : mapper.model? entity.kind = some model)
    (member : field ∈ model.fields) (fits : value = .null ∨ mapper.Conforms value field.type) :
    mapper.SoundEntity (entity.set field.name value) := by
  obtain ⟨own, registered, each⟩ := sound
  obtain rfl := Option.some.inj (found.symm.trans registered)
  refine ⟨model, by rw [Entity.set_kind]; exact found, fun entry stored => ?_⟩
  rcases Entity.mem_set stored with ⟨rfl, present⟩ | before
  · exact ⟨present, field, member, rfl, fits.resolve_left present⟩
  · exact each entry before

end Mapper

namespace Meaning

variable {context : MappingContext} {child : Codec → Bson → SessionM Value}

/-- A stored scalar conforms to its type. -/
theorem scalar_conforms (mapper : Mapper) (type : ScalarType) (stored : Bson) :
    Ensures (scalar type stored) (mapper.Conforms · (.scalar type)) := by
  unfold scalar
  split
  · rename_i fits
    have shown : (Value.ofBson stored).isSingle = true ∧
        (Value.ofBson stored).runtimeType = some (.scalar type) := by
      cases type <;> cases stored <;> cases fits <;> simp [Value.ofBson, Value.isSingle,
        Value.runtimeType]
    exact Ensures.pure ((Mapper.conforms_single shown.1).mpr (.inr shown.2))
  · exact Ensures.throw

/-- A value that may be null is null or what the child gives. -/
theorem nullable_ensures {step : Bson → SessionM Value} {stored : Bson} {holds : Value → Prop}
    (fact : Ensures (step stored) holds) :
    Ensures (nullable step stored) fun value => value = .null ∨ holds value := by
  unfold nullable
  split
  · exact Ensures.pure (.inl rfl)
  · exact fact.weaken fun value known => .inr known

/-- The items of an array have what each of them has. -/
theorem items_ensures {step : Bson → SessionM Value} {holds : Value → Prop}
    (each : ∀ stored, Ensures (step stored) holds) (stored : List Bson) :
    Ensures (items step stored) fun value =>
      ∃ items, value = .array items ∧ ∀ item ∈ items, holds item :=
  Ensures.map ((Ensures.mapM fun item _ => each item).weaken fun items known =>
    ⟨items, rfl, known⟩)

/-- The entries of a map have what each of them has. -/
theorem entries_ensures {step : Bson → SessionM Value} {holds : Value → Prop}
    (each : ∀ stored, Ensures (step stored) holds) (stored : List (String × Bson)) :
    Ensures (entries step stored) fun value =>
      ∃ entries, value = .map entries ∧ ∀ entry ∈ entries, holds entry.2 := by
  have walked : Ensures (stored.foldlM (entry step) []) fun found =>
      ∀ entry ∈ found, holds entry.2 := by
    refine Ensures.foldlM (by simp) fun found known entry _ => ?_
    refine (each entry.2).bind fun value fits => Ensures.pure fun later member => ?_
    rcases Keyed.mem_insert member with rfl | before
    · exact fits
    · exact known later before
  exact Ensures.map (walked.weaken fun found known => ⟨found, rfl, known⟩)

/-- The value of a field is null or conforms to the type of the field. -/
theorem fieldValue_conforms {mapper : Mapper}
    (each : ∀ codec stored, Ensures (child codec stored) (mapper.Conforms · codec.fieldType))
    (model : EntityModel) {field : Field}
    (resolved : ∀ codec, field.resolved = .ok codec → codec.fieldType = field.type)
    (stored : Bson) : Ensures (fieldValue child model field stored) fun value =>
      value = .null ∨ mapper.Conforms value field.type := by
  unfold fieldValue
  split
  · exact Ensures.pure (.inl rfl)
  · refine (SessionM.ensures_ofExcept _).bind fun codec known => ?_
    have fits := each codec stored
    rw [resolved codec known] at fits
    refine (SessionM.ensures_attempt fits).bind fun outcome succeeded => ?_
    cases outcome with
    | ok value => exact Ensures.pure (.inr (succeeded value rfl))
    | error cause =>
      dsimp only
      split
      · refine (each .any stored).bind fun raw sound => ?_
        refine (SessionM.ensures_ofExcept _).weaken fun value converted => ?_
        cases made : convert field.type raw with
        | ok result =>
          rw [made] at converted
          exact Except.ok.inj converted ▸ Mapper.convert_conforms sound made
        | error fault =>
          rw [made] at converted
          cases converted
      · exact Ensures.throw

/-- The codec of a field of a registered model is for the type of the field. -/
theorem resolved_type {mapper : Mapper} (sound : mapper.Sound) {model : EntityModel}
    (registered : model ∈ mapper.models) {field : Field} (member : field ∈ model.fields)
    {codec : Codec} (known : field.resolved = .ok codec) : codec.fieldType = field.type := by
  obtain ⟨own, assigned, found⟩ := sound.resolved model registered field member
  rw [Field.resolved, assigned] at known
  obtain rfl := Except.ok.inj known
  exact Registry.fieldType_codec found

/-- The entity of a registered model is sound. -/
theorem properties_sound {mapper : Mapper} (sound : mapper.Sound)
    (each : ∀ codec stored, Ensures (child codec stored) (mapper.Conforms · codec.fieldType))
    {model : EntityModel} (registered : model ∈ mapper.models) (document : Document) :
    Ensures (properties child model document) mapper.SoundEntity := by
  have found := sound.model?_of_mem registered
  have kept : Ensures (properties child model document) fun entity =>
      entity.kind = model.name ∧ mapper.SoundEntity entity := by
    apply Ensures.foldlM
    · exact ⟨rfl, model, found, by simp [Entity.empty]⟩
    intro entity known stored _
    unfold property
    split
    · exact Ensures.pure known
    · split
      · rename_i field located
        have member := (EntityModel.fieldStoredAs_some located).1
        apply Ensures.map
        refine (fieldValue_conforms each model
          (fun codec => resolved_type sound registered member) stored.2).weaken
            fun value fits => ?_
        rw [Entity.set_kind]
        exact ⟨known.1, known.2.set (known.1 ▸ found) member fits⟩
      · exact Ensures.pure known
  exact kept.weaken fun entity known => known.2

/-- The entity of a registered model is sound, whatever hooks do to its document. -/
theorem hooked_sound (sound : context.mapper.Sound)
    (each : ∀ codec stored, Ensures (child codec stored)
      (context.mapper.Conforms · codec.fieldType))
    {model : EntityModel} (registered : model ∈ context.mapper.models) (stored : Document) :
    Ensures (hooked context child model stored) context.mapper.SoundEntity := by
  refine (Ensures.trivial _).bind fun changed _ => ?_
  refine (properties_sound sound each registered changed).bind fun entity known => ?_
  exact (Ensures.trivial _).bind fun _ _ => Ensures.pure known

/-- An entity declared as a registered model is sound. -/
theorem entity_sound (sound : context.mapper.Sound)
    (each : ∀ codec stored, Ensures (child codec stored)
      (context.mapper.Conforms · codec.fieldType))
    {declared : EntityModel} (registered : declared ∈ context.mapper.models)
    (stored : List (String × Bson)) :
    Ensures (entity context child declared false stored) context.mapper.SoundEntity := by
  unfold Meaning.entity withHooks
  simp only [Bool.false_eq_true, if_false, if_true]
  split
  · refine (chosen_registered registered (document stored)).bind fun model known => ?_
    exact hooked_sound sound each known (document stored)
  · refine (chosen_registered registered stored).bind fun model known => ?_
    split
    · exact hooked_sound sound each known (document stored)
    · exact properties_sound sound each known stored

/-- A value read by a codec conforms to the type of the codec. -/
theorem value_conforms (sound : context.mapper.Sound) :
    ∀ (depth : Nat) (codec : Codec) (stored : Bson),
      Ensures (value context depth codec stored) (context.mapper.Conforms · codec.fieldType)
  | 0, _, _ => Ensures.throw
  | depth + 1, codec, stored => by
    have each := value_conforms sound depth
    have entity : ∀ {type : FieldType}, type = .any ∨ (∃ name, type = .entity name) →
        ∀ {declared : EntityModel}, declared ∈ context.mapper.models →
        ∀ entries, Ensures (Value.ofEntity <$>
          Meaning.entity context (value context depth) declared false entries)
          (context.mapper.Conforms · type) := by
      intro type allowed declared registered entries
      apply Ensures.map
      exact (entity_sound sound each registered entries).weaken fun found known =>
        Mapper.conforms_entity.mpr ⟨allowed, known⟩
    cases codec with
    | scalar type =>
      rw [value]
      exact scalar_conforms context.mapper type stored
    | list element =>
      rw [value]
      cases stored with
      | array stored =>
        refine (items_ensures (fun item => nullable_ensures (each element item)) stored).weaken ?_
        rintro _ ⟨items, rfl, known⟩
        exact Mapper.conforms_list.mpr known
      | _ => exact Ensures.throw
    | map element =>
      rw [value]
      cases stored with
      | document stored =>
        refine (entries_ensures (fun entry => nullable_ensures (each element entry))
          stored).weaken ?_
        rintro _ ⟨entries, rfl, known⟩
        exact Mapper.conforms_map.mpr known
      | _ => exact Ensures.throw
    | entity name =>
      rw [value]
      cases stored with
      | document stored =>
        refine (SessionM.ensures_ofExcept _).bind fun declared found => ?_
        have registered := (Mapper.model?_some (Mapper.model_ok.mp found)).1
        exact entity (.inr ⟨name, rfl⟩) registered stored
      | _ => exact Ensures.throw
    | any =>
      rw [value]
      cases stored with
      | document stored =>
        rw [any]
        cases recognised : Decoding.recognise context.mapper (document stored) with
        | none => exact Ensures.pure (Mapper.conforms_ofBson context.mapper _)
        | some model => exact entity (.inl rfl) (recognise_registered recognised) stored
      | array stored =>
        refine (items_ensures (each .any) stored).weaken ?_
        rintro _ ⟨items, rfl, known⟩
        exact Mapper.conforms_any_array.mpr fun item member => .inr (known item member)
      | _ => exact Ensures.pure (Mapper.conforms_ofBson context.mapper _)

end Meaning

namespace Mapper

variable {mapper : Mapper}

/-- The id that a top-level entity may be given keeps it sound. -/
theorem SoundEntity.assignId {entity : Entity} {model : EntityModel}
    (sound : mapper.SoundEntity entity) (found : mapper.model? entity.kind = some model)
    (options : Options) (session : Session) :
    mapper.SoundEntity (Encoding.assignId options model entity session).1 := by
  unfold Encoding.assignId
  split
  · rename_i field needed
    obtain ⟨declared, accepts⟩ := Encoding.needsId_some needed
    refine sound.set found declared (.inr ?_)
    rw [conforms_single rfl]
    revert accepts
    cases field.type with
    | scalar type => cases type <;> simp [FieldType.acceptsObjectId, Value.runtimeType]
    | _ => simp [FieldType.acceptsObjectId]
  · exact sound

/-- A sound entity can be encoded where no hook runs. -/
theorem SoundEntity.toDocument (registered : mapper.Sound) (silent : mapper.Silent)
    (apart : mapper.PropertiesApart) {entity : Entity} (sound : mapper.SoundEntity entity)
    (session : Session) :
    ∃ document, (mapper.toDocument entity session).outcome = .ok document := by
  obtain ⟨model, found, -⟩ := id sound
  have given := sound.assignId found mapper.options session
  have same := (Encoding.assignId_kind mapper.options model entity session).symm ▸ found
  obtain ⟨document, yields⟩ := @Stored.sound_yields mapper.context registered apart _ _ model
    same given (fun entry _ => Stored.value_yields registered silent apart entry.2) []
  refine ⟨document, ?_⟩
  rw [toDocument_eq found]
  dsimp only
  rw [@Silent.ofModel mapper.context model silent (model?_some found).1, yields _]

/-- Whatever document is decoded, the entity is sound: its kind is registered, no property is
null, and each is that of a field and conforms to the declared type of a field of its name.
Without hooks, and with the properties of each model apart, it can be encoded again. -/
theorem fromDocument_sound {plan : MapperPlan} {kind : String} {document : Document}
    {session : Session} {entity : Entity} (built : plan.assemble = .ok mapper)
    (decoded : (mapper.fromDocument kind document session).1 = .ok entity) :
    mapper.SoundEntity entity ∧ (mapper.PropertiesApart → mapper.Silent → ∀ later,
      ∃ stored, (mapper.toDocument entity later).outcome = .ok stored) := by
  have registered := MapperPlan.sound_of_assemble built
  have sound : mapper.SoundEntity entity := by
    have always : Ensures (do
        let declared ← SessionM.ofExcept (mapper.model kind)
        Meaning.entity mapper.context
          (Meaning.value mapper.context (Decoding.depthFor (Reader.ofDocument document)))
          declared false document) mapper.SoundEntity := by
      refine (SessionM.ensures_ofExcept _).bind fun declared found => ?_
      have known := (model?_some (model_ok.mp found)).1
      exact Meaning.entity_sound registered (Meaning.value_conforms registered _) known document
    rw [fromDocument_eq] at decoded
    exact always session entity _ (Prod.ext decoded rfl)
  exact ⟨sound, fun apart silent => sound.toDocument registered silent apart⟩

/-- Books with a title and a list of tags. -/
def books : MapperPlan :=
  ⟨.standard,
    [((EntityModel.blank "Book").declare (.field (.plain "title" (.scalar .string)))).declare
      (.field (.plain "tags" (.list (.scalar .string))))], [], []⟩

/-- A book with a text in place of its tags is decoded to a sound entity, which can be encoded
again. -/
theorem fromDocument_sound_book : ∃ mapper entity, books.assemble = .ok mapper ∧
    (mapper.fromDocument "Book" [("title", .string "Dune"), ("tags", .string "desert")]
      (.start fun _ => ⟨0⟩)).1 = .ok entity ∧
    mapper.SoundEntity entity ∧ mapper.PropertiesApart ∧ mapper.Silent ∧ ∀ later,
      ∃ stored, (mapper.toDocument entity later).outcome = .ok stored := by
  obtain ⟨mapper, built⟩ : ∃ mapper, books.assemble = .ok mapper := ⟨_, rfl⟩
  have decoded : (mapper.fromDocument "Book" [("title", .string "Dune"), ("tags", .string "desert")]
      (.start fun _ => ⟨0⟩)).1 =
      .ok ⟨"Book", [("title", .string "Dune"), ("tags", .array [.string "desert"])]⟩ := by
    cases built
    rfl
  have apart : mapper.PropertiesApart := by
    cases built
    intro model registered
    rw [List.mem_singleton.mp registered]
    decide
  have silent : mapper.Silent := by
    cases built
    refine ⟨rfl, fun model registered kind => ?_⟩
    rw [List.mem_singleton.mp registered]
    rfl
  obtain ⟨sound, again⟩ := fromDocument_sound built decoded
  exact ⟨mapper, _, built, decoded, sound, apart, silent, again apart silent⟩

end Mapper

end EntityMapping
