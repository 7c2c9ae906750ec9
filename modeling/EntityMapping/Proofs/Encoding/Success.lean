import Mathlib.Data.List.Nodup
import EntityMapping.Proofs.Encoding.Writing
import EntityMapping.Proofs.Lifecycle.Silent
import EntityMapping.Proofs.Mapper.Conforms
/-!
# Sound entities can be stored

A value that conforms to a type is stored by the codec of the type: nothing in it
meets a codec that it does not fit, and every entity in it has a model. Two fields
of one property would ask for two types at once, so each model must name the
properties of its fields apart.
-/

namespace EntityMapping

/-- Whether no model has two fields of one property. -/
def Mapper.PropertiesApart (mapper : Mapper) : Prop :=
  ∀ model ∈ mapper.models, (model.fields.map Field.name).Nodup

namespace Stored

variable {context : MappingContext}

/-- A value without parts that conforms to a type is stored. -/
theorem plain_yields {mapper : Mapper} {single : Value} (simple : single.isSingle = true)
    {codec : Codec} (fits : mapper.Conforms single codec.fieldType) :
    ∃ stored, Yields (plain single codec) stored := by
  rw [Mapper.conforms_single simple] at fits
  cases codec with
  | scalar type =>
    have shown : single.runtimeType = some (.scalar type) := by simpa [Codec.fieldType] using fits
    obtain ⟨stored, found⟩ : ∃ stored, Encoding.scalar? type single = some stored := by
      cases single <;> cases shown <;> exact ⟨_, rfl⟩
    refine ⟨stored, ?_⟩
    rw [plain, found]
    exact Yields.pure stored
  | any =>
    obtain ⟨stored, found⟩ : ∃ stored, Encoding.plain? single = some stored := by
      cases single <;> cases simple <;> exact ⟨_, rfl⟩
    refine ⟨stored, ?_⟩
    rw [plain, found]
    exact Yields.pure stored
  | list element | map element | entity name =>
    have shown := fits.resolve_left (by simp [Codec.fieldType])
    cases single <;> first | (cases simple; done) | cases shown

/-- What is null or stored is stored. -/
theorem orNull_yields {value : Value} {form : SessionM Bson}
    (each : value = .null ∨ ∃ stored, Yields form stored) :
    ∃ stored, Yields (orNull value form) stored := by
  rcases each with rfl | ⟨stored, known⟩
  · exact ⟨Bson.null, Yields.pure Bson.null⟩
  · unfold orNull
    split
    · exact ⟨Bson.null, Yields.pure Bson.null⟩
    · exact ⟨stored, known⟩

/-- The items of a list are stored where each of them is null or stored. -/
theorem items_yields {values : List Value} {codec : Codec}
    (each : ∀ item ∈ values, item = .null ∨ ∃ stored, Yields (value context item codec) stored) :
    ∃ stored, Yields (items context values codec) stored := by
  rw [items_eq]
  exact Yields.mapM fun item member => orNull_yields (each item member)

/-- The entries of a map are stored where each of them is null or stored. -/
theorem named_yields {values : List (String × Value)} {codec : Codec}
    (each : ∀ entry ∈ values,
      entry.2 = .null ∨ ∃ stored, Yields (value context entry.2 codec) stored) :
    ∃ stored, Yields (named context values codec []) stored := by
  rw [named_eq]
  refine Yields.foldlM (fun document entry member => ?_) []
  obtain ⟨stored, known⟩ := orNull_yields (each entry member)
  exact ⟨_, known.bind (Yields.pure (Keyed.insert entry.1 stored document))⟩

/-- A field is stored where its property is absent or stored by its codec. -/
theorem property_yields (options : Options) (model : EntityModel)
    {properties : List (String × Value)} {field : Field}
    (each : ∀ found, Keyed.get? field.name properties = some found → ∃ codec stored,
      field.resolved = .ok codec ∧ Yields (value context found codec) stored)
    (document : Document) :
    ∃ result, Yields (property options model (forms context properties) document field)
      result := by
  have filled : ∃ stored, Yields
      (content model field (Keyed.get? field.name (forms context properties))) stored := by
    rw [get?_forms]
    cases found : Keyed.get? field.name properties with
    | none => exact ⟨Bson.null, Yields.pure Bson.null⟩
    | some one =>
      obtain ⟨codec, stored, resolved, known⟩ := each one found
      have whole : Yields (do
          let codec ← SessionM.ofExcept field.resolved
          tryCatch (value context one codec) fun cause =>
            throw (.encoding model.name field.name cause)) stored := by
        rw [resolved]
        exact (Yields.pure codec).bind (known.tryCatch _)
      cases one with
      | null => exact ⟨Bson.null, Yields.pure Bson.null⟩
      | _ => exact ⟨stored, whole⟩
  unfold property
  dsimp only
  split
  · obtain ⟨stored, known⟩ := filled
    exact ⟨_, known.bind (Yields.pure (Keyed.insert field.documentName stored document))⟩
  · exact ⟨document, Yields.pure document⟩

/-- An entity is stored where each of its fields is absent or stored by its codec. -/
theorem entries_yields (options : Options) (model : EntityModel)
    {properties : List (String × Value)}
    (each : ∀ field ∈ model.fields, ∀ found, Keyed.get? field.name properties = some found →
      ∃ codec stored, field.resolved = .ok codec ∧ Yields (value context found codec) stored)
    (start : Document) :
    ∃ result, Yields (entries options model (forms context properties) start) result := by
  have ids : ∀ field ∈ model.idField.toList, field ∈ model.fields := by
    intro field member
    exact List.mem_of_find?_eq_some (by simpa [EntityModel.idField] using member)
  have walk : ∀ (fields : List Field), (∀ field ∈ fields, field ∈ model.fields) → ∀ document,
      ∃ result, Yields (fields.foldlM (property options model (forms context properties))
        document) result := by
    intro fields among document
    exact Yields.foldlM (fun document field member =>
      property_yields options model (each field (among field member)) document) document
  obtain ⟨first, known⟩ := walk _ ids start
  obtain ⟨last, later⟩ := walk (model.fields.filter fun field => !field.isId)
    (fun field member => (List.mem_filter.mp member).1) (marked model first)
  exact ⟨last, known.bind later⟩

/-- The model of an entity is found where its kind is registered. -/
theorem modelFor_eq {mapper : Mapper} (sound : mapper.Sound) {declared model : EntityModel}
    (registered : declared ∈ mapper.models) {kind : String}
    (found : mapper.model? kind = some model) :
    Encoding.modelFor mapper declared kind = .ok model := by
  rw [Encoding.modelFor_eq_ite]
  split
  · rename_i same
    have own := sound.model?_of_mem registered
    rw [same, found] at own
    rw [Option.some.inj own]
  · exact Mapper.model_ok.mpr found

/-- The fields of a sound entity are stored, where its properties are. -/
theorem sound_yields (sound : context.mapper.Sound) (apart : context.mapper.PropertiesApart)
    {kind : String} {properties : List (String × Value)} {model : EntityModel}
    (found : context.mapper.model? kind = some model)
    (known : context.mapper.SoundEntity ⟨kind, properties⟩)
    (each : ∀ entry ∈ properties, ∀ type codec, context.mapper.registry.codec type = .ok codec →
      context.mapper.Conforms entry.2 type → ∃ stored, Yields (value context entry.2 codec) stored)
    (start : Document) :
    ∃ result, Yields (entries context.mapper.options model (forms context properties) start)
      result := by
  obtain ⟨own, registered, fitting⟩ := known
  obtain rfl := Option.some.inj (found.symm.trans registered)
  have member := (Mapper.model?_some found).1
  refine entries_yields _ model (fun field belongs one located => ?_) start
  have entry := Keyed.mem_of_get? located
  obtain ⟨-, other, among, named, fits⟩ := fitting _ entry
  -- No other field has the property, so its type is the one that the value conforms to.
  obtain rfl := List.inj_on_of_nodup_map (apart model member) among belongs named
  obtain ⟨codec, assigned, coded⟩ := sound.resolved model member other belongs
  obtain ⟨stored, yields⟩ := each _ entry other.type codec coded fits
  exact ⟨codec, stored, by rw [Field.resolved, assigned], yields⟩

/-- A sound entity is stored, whichever registered kind is declared. -/
theorem entity_yields (sound : context.mapper.Sound) (silent : context.mapper.Silent)
    (apart : context.mapper.PropertiesApart) {kind : String} {properties : List (String × Value)}
    (known : context.mapper.SoundEntity ⟨kind, properties⟩)
    (each : ∀ entry ∈ properties, ∀ type codec, context.mapper.registry.codec type = .ok codec →
      context.mapper.Conforms entry.2 type → ∃ stored, Yields (value context entry.2 codec) stored)
    {name : String} {declared : EntityModel}
    (located : context.mapper.model? name = some declared) :
    ∃ stored, Yields (do
      let declared ← SessionM.ofExcept (context.mapper.model name)
      Bson.document <$> entity context declared ⟨kind, properties⟩ (forms context properties))
      stored := by
  obtain ⟨model, found, -⟩ := id known
  have registered := (Mapper.model?_some located).1
  obtain ⟨document, yields⟩ := sound_yields sound apart found known each []
  rw [← silent.ofModel (Mapper.model?_some found).1 ⟨kind, properties⟩] at yields
  refine ⟨.document document, ?_⟩
  rw [Mapper.model_ok.mpr located]
  refine (Yields.pure declared).bind (Yields.map ?_ Bson.document)
  rw [entity, modelFor_eq sound registered found]
  exact (Yields.pure model).bind yields

/-- A value that conforms to a type is stored by the codec of the type. -/
theorem value_yields (sound : context.mapper.Sound) (silent : context.mapper.Silent)
    (apart : context.mapper.PropertiesApart) (subject : Value) :
    ∀ type codec, context.mapper.registry.codec type = .ok codec →
      context.mapper.Conforms subject type →
      ∃ stored, Yields (value context subject codec) stored := by
  induction subject using Value.parts_induction with
  | single single simple =>
    intro type codec coded fits
    rw [value_single simple]
    rw [← Registry.fieldType_codec coded] at fits
    exact plain_yields simple fits
  | array values each =>
    intro type codec coded fits
    have stored : ∀ element inner, context.mapper.registry.codec element = .ok inner →
        (∀ item ∈ values, item = .null ∨ context.mapper.Conforms item element) →
        ∃ stored, Yields (Bson.array <$> items context values inner) stored := by
      intro element inner coded fitting
      obtain ⟨stored, known⟩ := items_yields fun item member =>
        (fitting item member).imp_right (each item member element inner coded)
      exact ⟨.array stored, known.map Bson.array⟩
    cases type with
    | list element =>
      obtain ⟨inner, inside, rfl⟩ := ok_of_map coded
      rw [value]
      exact stored element inner inside (Mapper.conforms_list.mp fits)
    | any =>
      cases coded
      rw [value]
      exact stored .any .any rfl (Mapper.conforms_any_array.mp fits)
    | _ => simp [Mapper.Conforms] at fits
  | map values each =>
    intro type codec coded fits
    have stored : ∀ element inner, context.mapper.registry.codec element = .ok inner →
        (∀ entry ∈ values, entry.2 = .null ∨ context.mapper.Conforms entry.2 element) →
        ∃ stored, Yields (Bson.document <$> named context values inner []) stored := by
      intro element inner coded fitting
      obtain ⟨stored, known⟩ := named_yields fun entry member =>
        (fitting entry member).imp_right (each entry member element inner coded)
      exact ⟨.document stored, known.map Bson.document⟩
    cases type with
    | map element =>
      obtain ⟨inner, inside, rfl⟩ := ok_of_map coded
      rw [value]
      exact stored element inner inside (Mapper.conforms_map.mp fits)
    | any =>
      cases coded
      rw [value]
      exact stored .any .any rfl (Mapper.conforms_any_map.mp fits)
    | _ => simp [Mapper.Conforms] at fits
  | entity kind properties each =>
    intro type codec coded fits
    obtain ⟨allowed, known⟩ := (@Mapper.conforms_entity _ type ⟨kind, properties⟩).mp fits
    obtain ⟨model, found, -⟩ := id known
    rcases allowed with rfl | ⟨name, rfl⟩
    · cases coded
      rw [value]
      exact entity_yields sound silent apart known each found
    · obtain ⟨rfl, has⟩ := Registry.codec_entity coded
      rw [sound.known] at has
      obtain ⟨declared, located⟩ := Option.isSome_iff_exists.mp has
      rw [value]
      exact entity_yields sound silent apart known each located

end Stored

end EntityMapping
