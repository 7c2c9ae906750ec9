import EntityMapping.Decidable
import EntityMapping.Model.Declaration
import EntityMapping.Proofs.Encoding.Success
/-!
# Which entities are stored

Whether an entity is stored is decided by the forms of its values alone. A value fits
a declared type if its form is one that the type stores and its parts, other than
nulls, fit in turn; an entity is good if its kind is registered and what is written of
it fits. Without hooks just the good entities are stored, and a failure names the first
field, in the order of writing, whose value does not fit, at every level down to the
value or the kind that is to blame.
-/

namespace EntityMapping

namespace FieldType

/-- The type of the items, where lists are stored. -/
def itemType : FieldType → Option FieldType
  | list element => some element
  | any => some any
  | _ => none

/-- The type of the values, where maps are stored. -/
def valueType : FieldType → Option FieldType
  | map element => some element
  | any => some any
  | _ => none

/-- Whether entities are stored. -/
def storesEntities : FieldType → Bool
  | entity _ => true
  | any => true
  | _ => false

/-- Whether the form of a value is one that is stored, whatever its parts are. -/
def admits (type : FieldType) : Value → Bool
  | .array _ => type.itemType.isSome
  | .map _ => type.valueType.isSome
  | .entity _ _ => type.storesEntities
  | single => decide (type = any) || decide (single.runtimeType = some type)

end FieldType

/-- The fields of a model in the order of writing: the id first, then the others. -/
def EntityModel.writingOrder (model : EntityModel) : List Field :=
  model.idField.toList ++ model.fields.filter fun field => !field.isId

/-- A checked model writes just its fields. -/
theorem EntityModel.Checked.mem_writingOrder {model : EntityModel} (checked : model.Checked)
    {field : Field} : field ∈ model.writingOrder ↔ field ∈ model.fields := by
  unfold writingOrder
  rw [List.mem_append, List.mem_filter]
  constructor
  · rintro (identity | ⟨declared, -⟩)
    · exact List.mem_of_find?_eq_some (by simpa [idField] using identity)
    · exact declared
  · intro declared
    cases identifier : field.isId with
    | true => exact .inl (checked.mem_idField declared identifier)
    | false => exact .inr ⟨declared, by simp⟩

/-- What is at the bottom of a failure, below the written fields that it names. -/
def MappingError.bottom : MappingError → MappingError
  | .encoding _ _ source => bottom source
  | other => other

namespace Mapper

/-- A value fits a declared type: its form is stored as this type, and its parts fit. Nulls among
the items of a list, the values of a map or the properties of an entity are not looked at, nor
are properties that are left out. -/
inductive ValueFits (mapper : Mapper) : Value → FieldType → Prop
  /-- A value without parts of the type that it shows, or of any. -/
  | single {value : Value} {type : FieldType} (simple : value.isSingle = true)
      (admitted : type.admits value = true) : ValueFits mapper value type
  /-- A list whose items fit. -/
  | array {items : List Value} {type element : FieldType} (admitted : type.itemType = some element)
      (each : ∀ item ∈ items, item ≠ .null → ValueFits mapper item element) :
      ValueFits mapper (.array items) type
  /-- A map whose values fit. -/
  | map {entries : List (String × Value)} {type element : FieldType}
      (admitted : type.valueType = some element)
      (each : ∀ entry ∈ entries, entry.2 ≠ .null → ValueFits mapper entry.2 element) :
      ValueFits mapper (.map entries) type
  /-- An entity of a registered kind whose written properties fit. -/
  | entity {subject : Entity} {type : FieldType} {model : EntityModel}
      (admitted : type.storesEntities = true) (registered : mapper.model? subject.kind = some model)
      (each : ∀ field ∈ model.fields,
        field.isWritten (subject.valueOf field.name) mapper.options = true →
        subject.valueOf field.name ≠ .null →
        ValueFits mapper (subject.valueOf field.name) field.type) :
      ValueFits mapper (.entity subject.kind subject.properties) type

/-- A field is written for an entity, and not as null. -/
def Writes (mapper : Mapper) (entity : Entity) (field : Field) : Prop :=
  field.isWritten (entity.valueOf field.name) mapper.options = true ∧
    entity.valueOf field.name ≠ .null

/-- What is written of a field of an entity fits. -/
def FieldFits (mapper : Mapper) (entity : Entity) (field : Field) : Prop :=
  mapper.Writes entity field → mapper.ValueFits (entity.valueOf field.name) field.type

/-- A good entity: its kind is registered, and what is written of its fields fits. -/
def Good (mapper : Mapper) (entity : Entity) : Prop :=
  ∃ model, mapper.model? entity.kind = some model ∧
    ∀ field ∈ model.fields, mapper.FieldFits entity field

/-- What a failure says of a value that does not fit a type: which form is not stored as the
type, which kind is not registered, or which field of which entity does not fit, and why. In a
list or a map it is said of the first part that does not fit. -/
inductive Blames (mapper : Mapper) : Value → FieldType → MappingError → Prop
  /-- A value of a form that is not stored. -/
  | form {value : Value} {type : FieldType} (refused : type.admits value = false) :
      Blames mapper value type (.unexpectedValue type value.kindName)
  /-- The first item that does not fit. -/
  | item {before after : List Value} {item : Value} {type element : FieldType}
      {cause : MappingError} (admitted : type.itemType = some element)
      (earlier : ∀ other ∈ before, other ≠ .null → mapper.ValueFits other element)
      (filled : item ≠ .null) (blamed : Blames mapper item element cause) :
      Blames mapper (.array (before ++ item :: after)) type cause
  /-- The first value of a map that does not fit. -/
  | entry {before after : List (String × Value)} {entry : String × Value}
      {type element : FieldType} {cause : MappingError} (admitted : type.valueType = some element)
      (earlier : ∀ other ∈ before, other.2 ≠ .null → mapper.ValueFits other.2 element)
      (filled : entry.2 ≠ .null) (blamed : Blames mapper entry.2 element cause) :
      Blames mapper (.map (before ++ entry :: after)) type cause
  /-- A kind that is not registered. -/
  | kind {subject : Entity} {type : FieldType} (admitted : type.storesEntities = true)
      (unknown : mapper.model? subject.kind = none) :
      Blames mapper (.entity subject.kind subject.properties) type (.noCodec subject.kind)
  /-- The first field of an embedded entity that does not fit. -/
  | field {subject : Entity} {type : FieldType} {model : EntityModel}
      {before after : List Field} {field : Field} {source : MappingError}
      (admitted : type.storesEntities = true) (registered : mapper.model? subject.kind = some model)
      (order : model.writingOrder = before ++ field :: after)
      (earlier : ∀ other ∈ before, mapper.FieldFits subject other)
      (written : mapper.Writes subject field)
      (blamed : Blames mapper (subject.valueOf field.name) field.type source) :
      Blames mapper (.entity subject.kind subject.properties) type
        (.encoding model.name field.name source)

/-- What is written of a field does not fit, for a reason. -/
def FieldBlames (mapper : Mapper) (entity : Entity) (field : Field) (source : MappingError) :
    Prop :=
  mapper.Writes entity field ∧ mapper.Blames (entity.valueOf field.name) field.type source

/-- A failure names the first of some fields that does not fit an entity, and says why. -/
def BlamesField (mapper : Mapper) (model : EntityModel) (entity : Entity) :
    List Field → MappingError → Prop :=
  BlamesFirst (mapper.FieldFits entity) fun field cause => ∃ source,
    cause = .encoding model.name field.name source ∧ mapper.FieldBlames entity field source

variable {mapper : Mapper} {type : FieldType}

/-- A list fits where lists are stored and its items fit. -/
theorem fits_array {items : List Value} : mapper.ValueFits (.array items) type ↔
    ∃ element, type.itemType = some element ∧
      ∀ item ∈ items, item ≠ .null → mapper.ValueFits item element := by
  constructor
  · rintro (⟨⟨⟩⟩ | ⟨admitted, each⟩)
    exact ⟨_, admitted, each⟩
  · rintro ⟨element, admitted, each⟩
    exact .array admitted each

/-- A map fits where maps are stored and its values fit. -/
theorem fits_map {entries : List (String × Value)} : mapper.ValueFits (.map entries) type ↔
    ∃ element, type.valueType = some element ∧
      ∀ entry ∈ entries, entry.2 ≠ .null → mapper.ValueFits entry.2 element := by
  constructor
  · rintro (⟨⟨⟩⟩ | - | ⟨admitted, each⟩)
    exact ⟨_, admitted, each⟩
  · rintro ⟨element, admitted, each⟩
    exact .map admitted each

/-- An entity fits where entities are stored and it is good. -/
theorem fits_entity {entity : Entity} :
    mapper.ValueFits (.entity entity.kind entity.properties) type ↔
      type.storesEntities = true ∧ mapper.Good entity := by
  constructor
  · intro fits
    generalize same : Value.entity entity.kind entity.properties = value at fits
    cases fits with
    | single simple =>
      subst same
      cases simple
    | array | map => cases same
    | @entity subject _ model admitted registered each =>
      obtain ⟨kind, properties⟩ := Value.entity.inj same
      obtain rfl : entity = subject := by
        cases entity
        cases subject
        simp_all
      exact ⟨admitted, model, registered, fun field declared writes =>
        each field declared writes.1 writes.2⟩
  · rintro ⟨admitted, model, registered, each⟩
    exact .entity admitted registered fun field declared kept filled =>
      each field declared ⟨kept, filled⟩

/-- What fits has a form that is stored. -/
theorem ValueFits.admits {value : Value} (fits : mapper.ValueFits value type) :
    type.admits value = true := by
  cases fits with
  | single _ admitted => exact admitted
  | array admitted => simp [FieldType.admits, admitted]
  | map admitted => simp [FieldType.admits, admitted]
  | entity admitted => exact admitted

/-- What a failure blames does not fit. -/
theorem Blames.not_fits (sound : mapper.Sound) {value : Value} {cause : MappingError}
    (blamed : mapper.Blames value type cause) : ¬ mapper.ValueFits value type := by
  induction blamed with
  | form refused =>
    intro fits
    simp [fits.admits] at refused
  | item admitted earlier filled blamed ih =>
    intro fits
    obtain ⟨element, same, each⟩ := fits_array.mp fits
    obtain rfl := Option.some.inj (admitted.symm.trans same)
    exact ih (each _ (by simp) filled)
  | entry admitted earlier filled blamed ih =>
    intro fits
    obtain ⟨element, same, each⟩ := fits_map.mp fits
    obtain rfl := Option.some.inj (admitted.symm.trans same)
    exact ih (each _ (by simp) filled)
  | kind admitted unknown =>
    intro fits
    obtain ⟨-, model, registered, -⟩ := fits_entity.mp fits
    simp [unknown] at registered
  | field admitted registered order earlier written blamed ih =>
    intro fits
    obtain ⟨-, model, same, each⟩ := fits_entity.mp fits
    obtain rfl := Option.some.inj (registered.symm.trans same)
    have declared := (sound.checked _ (model?_some registered).1).mem_writingOrder.mp
      (order ▸ List.mem_append_right _ (List.mem_cons_self ..))
    exact ih (each _ declared written)

/-- At the bottom of a failure, a value meets a type that does not store it, or a kind has no
model. -/
theorem Blames.bottom {value : Value} {cause : MappingError}
    (blamed : mapper.Blames value type cause) :
    (∃ expected found, cause.bottom = .unexpectedValue expected found) ∨
      ∃ kind, cause.bottom = .noCodec kind := by
  induction blamed with
  | form => exact .inl ⟨_, _, rfl⟩
  | kind => exact .inr ⟨_, rfl⟩
  | item _ _ _ _ ih | entry _ _ _ _ ih => exact ih
  | field _ _ _ _ _ _ ih => exact ih

end Mapper

namespace Stored

variable {context : MappingContext}

/-- A value without parts is judged by the form that is found for it. -/
theorem found_judges {mapper : Mapper} {single : Value} (simple : single.isSingle = true)
    (codec : Codec) (found : Option Bson) :
    codec.fieldType.admits single = found.isSome →
      Judges
        (match found with
        | some content => pure content
        | none => throw (.unexpectedValue codec.fieldType single.kindName) : SessionM Bson)
        (mapper.ValueFits single codec.fieldType) (mapper.Blames single codec.fieldType) := by
  intro admitted
  cases found with
  | some content => exact Judges.pure content (.single simple admitted)
  | none => exact Judges.throw (.form admitted)

/-- A value without parts is stored where its type is one that stores it. -/
theorem plain_judges {mapper : Mapper} {single : Value} (simple : single.isSingle = true)
    (codec : Codec) : Judges (plain single codec) (mapper.ValueFits single codec.fieldType)
      (mapper.Blames single codec.fieldType) := by
  cases codec with
  | scalar type =>
    refine found_judges simple _ (Encoding.scalar? type single) ?_
    cases single <;> first | (cases simple; done) | (cases type <;> rfl)
  | any =>
    refine found_judges simple _ (Encoding.plain? single) ?_
    cases single <;> first | (cases simple; done) | rfl
  | list | map | entity =>
    refine found_judges simple _ none ?_
    cases single <;> first | (cases simple; done) | rfl

/-- A null passes, and any other value is judged. -/
theorem orNull_judges (value : Value) {form : SessionM Bson} {fits : Prop}
    {blames : MappingError → Prop} (judges : Judges form fits blames) :
    Judges (orNull value form) (value ≠ .null → fits)
      fun cause => value ≠ .null ∧ blames cause := by
  unfold orNull
  split
  · rename_i isNull
    have empty : value = .null := by cases value <;> first | rfl | cases isNull
    exact Judges.pure Bson.null fun filled => absurd empty filled
  · rename_i filled
    have present : value ≠ .null := fun empty => filled (by rw [empty]; rfl)
    exact judges.weaken (fun fits _ => fits) fun cause blamed => ⟨present, blamed⟩

/-- Lists are judged by their first item that does not fit. -/
theorem array_judges {values : List Value} {type element : FieldType} {inner : Codec}
    (admitted : type.itemType = some element)
    (each : ∀ item ∈ values, Judges (value context item inner)
      (context.mapper.ValueFits item element) (context.mapper.Blames item element)) :
    Judges (Bson.array <$> items context values inner)
      (context.mapper.ValueFits (.array values) type)
      (context.mapper.Blames (.array values) type) := by
  rw [items_eq]
  refine ((Judges.mapM fun item member => orNull_judges item (each item member)).weaken
    (.array admitted) ?_).map Bson.array
  rintro cause ⟨before, item, after, rfl, earlier, filled, blamed⟩
  exact .item admitted earlier filled blamed

/-- Maps are judged by their first value that does not fit. -/
theorem map_judges {values : List (String × Value)} {type element : FieldType} {inner : Codec}
    (admitted : type.valueType = some element)
    (each : ∀ entry ∈ values, Judges (value context entry.2 inner)
      (context.mapper.ValueFits entry.2 element) (context.mapper.Blames entry.2 element)) :
    Judges (Bson.document <$> named context values inner [])
      (context.mapper.ValueFits (.map values) type)
      (context.mapper.Blames (.map values) type) := by
  rw [named_eq]
  have step : ∀ document : Document, ∀ entry ∈ values, Judges (do
      let stored ← orNull entry.2 (value context entry.2 inner)
      pure (Keyed.insert entry.1 stored document))
      (entry.2 ≠ .null → context.mapper.ValueFits entry.2 element)
      fun cause => entry.2 ≠ .null ∧ context.mapper.Blames entry.2 element cause := by
    intro document entry member
    have judged := (orNull_judges entry.2 (each entry member)).map
      fun stored => Keyed.insert entry.1 stored document
    rwa [map_eq_pure_bind] at judged
  refine ((Judges.foldlM step []).weaken (.map admitted) ?_).map Bson.document
  rintro cause ⟨before, entry, after, rfl, earlier, filled, blamed⟩
  exact .entry admitted earlier filled blamed

/-- A field is judged by what is written of it, and its failures name it. -/
theorem property_judges (model : EntityModel) {subject : Entity} {field : Field} {codec : Codec}
    (resolved : field.resolved = .ok codec)
    (each : ∀ entry ∈ subject.properties, Judges (value context entry.2 codec)
      (context.mapper.ValueFits entry.2 field.type) (context.mapper.Blames entry.2 field.type))
    (document : Document) :
    Judges (property context.mapper.options model (forms context subject.properties) document field)
      (context.mapper.FieldFits subject field) fun cause => ∃ source,
        cause = .encoding model.name field.name source ∧
          context.mapper.FieldBlames subject field source := by
  have known : subject.valueOf field.name =
      (Keyed.get? field.name subject.properties).getD .null := rfl
  have kept : ((Keyed.get? field.name (forms context subject.properties)).map Prod.fst).getD .null =
      subject.valueOf field.name := by
    rw [get?_forms, Option.map_map]
    simp [Function.comp_def, known]
  unfold property
  dsimp only
  rw [kept]
  split
  · rename_i written
    have filled : Judges
        (content model field (Keyed.get? field.name (forms context subject.properties)))
        (context.mapper.FieldFits subject field) fun cause => ∃ source,
          cause = .encoding model.name field.name source ∧
            context.mapper.FieldBlames subject field source := by
      have absent : subject.valueOf field.name = .null → context.mapper.FieldFits subject field :=
        fun empty writes => absurd empty writes.2
      rw [get?_forms]
      cases found : Keyed.get? field.name subject.properties with
      | none => exact Judges.pure Bson.null (absent (by rw [known, found]; rfl))
      | some one =>
        have here : subject.valueOf field.name = one := by rw [known, found]; rfl
        have judged := ((each _ (Keyed.mem_of_get? found)).rethrow
          (MappingError.encoding model.name field.name))
        have whole : one ≠ .null → Judges (do
            let codec ← SessionM.ofExcept field.resolved
            tryCatch (value context one codec) fun cause =>
              throw (.encoding model.name field.name cause))
            (context.mapper.FieldFits subject field) fun cause => ∃ source,
              cause = .encoding model.name field.name source ∧
                context.mapper.FieldBlames subject field source := by
          intro present
          rw [resolved]
          refine judged.weaken (fun fits _ => here ▸ fits) ?_
          rintro cause ⟨source, same, blamed⟩
          exact ⟨source, same, ⟨written, here ▸ present⟩, here ▸ blamed⟩
        cases one with
        | null => exact Judges.pure Bson.null (absent here)
        | _ => exact whole (by simp)
    have judged := filled.map fun stored => Keyed.insert field.documentName stored document
    rwa [map_eq_pure_bind] at judged
  · rename_i left
    exact Judges.pure document fun writes => absurd writes.1 left

/-- An entity is judged by its first field that does not fit. -/
theorem entries_judges (sound : context.mapper.Sound) {model : EntityModel}
    (registered : model ∈ context.mapper.models) {subject : Entity}
    (each : ∀ entry ∈ subject.properties, ∀ type codec,
      context.mapper.registry.codec type = .ok codec → Judges (value context entry.2 codec)
        (context.mapper.ValueFits entry.2 type) (context.mapper.Blames entry.2 type))
    (start : Document) :
    Judges (entries context.mapper.options model (forms context subject.properties) start)
      (∀ field ∈ model.fields, context.mapper.FieldFits subject field)
      (context.mapper.BlamesField model subject model.writingOrder) := by
  have order : ∀ field, field ∈ model.writingOrder ↔ field ∈ model.fields :=
    fun _ => (sound.checked model registered).mem_writingOrder
  have walk : ∀ fields : List Field, (∀ field ∈ fields, field ∈ model.writingOrder) →
      ∀ document, Judges (fields.foldlM
        (property context.mapper.options model (forms context subject.properties)) document)
        (∀ field ∈ fields, context.mapper.FieldFits subject field)
        (context.mapper.BlamesField model subject fields) := by
    intro fields among document
    refine Judges.foldlM (fun document field member => ?_) document
    have declared := (order field).mp (among field member)
    obtain ⟨codec, assigned, coded⟩ := sound.resolved model registered field declared
    exact property_judges model (by rw [Field.resolved, assigned])
      (fun entry known => each entry known field.type codec coded) document
  have first := (walk model.idField.toList (fun field => List.mem_append_left _) start).weaken id
    fun cause blamed => blamed.before (model.fields.filter fun field => !field.isId)
  have later := fun document (ids : ∀ field ∈ model.idField.toList,
      context.mapper.FieldFits subject field) =>
    (walk (model.fields.filter fun field => !field.isId) (fun field => List.mem_append_right _)
      (marked model document)).weaken id fun cause blamed => blamed.after ids
  refine (first.bind later).weaken (fun both field declared => ?_) fun cause => id
  rcases List.mem_append.mp ((order field).mpr declared) with identity | other
  · exact both.1 field identity
  · exact both.2 field other

/-- Where a kind is not registered, no declared model finds it one. -/
theorem modelFor_unknown {mapper : Mapper} {name kind : String} {declared : EntityModel}
    (sound : mapper.Sound) (located : mapper.model? name = some declared)
    (unknown : mapper.model? kind = none) :
    Encoding.modelFor mapper declared kind = .error (.noCodec kind) := by
  rw [Encoding.modelFor_eq_ite]
  split
  · rename_i same
    have own := sound.model?_of_mem (Mapper.model?_some located).1
    rw [same, unknown] at own
    cases own
  · rw [Mapper.model, unknown]

/-- An embedded entity is judged by its kind and its fields, whichever model is declared. -/
theorem entity_judges (sound : context.mapper.Sound) (silent : context.mapper.Silent)
    {subject : Entity} {type : FieldType} (admitted : type.storesEntities = true) {name : String}
    (known : (context.mapper.model? name).isSome = true ∨ name = subject.kind)
    (each : ∀ entry ∈ subject.properties, ∀ type codec,
      context.mapper.registry.codec type = .ok codec → Judges (value context entry.2 codec)
        (context.mapper.ValueFits entry.2 type) (context.mapper.Blames entry.2 type)) :
    Judges (do
        let declared ← SessionM.ofExcept (context.mapper.model name)
        Bson.document <$> entity context declared subject (forms context subject.properties))
      (context.mapper.ValueFits (.entity subject.kind subject.properties) type)
      (context.mapper.Blames (.entity subject.kind subject.properties) type) := by
  cases found : context.mapper.model? subject.kind with
  | none =>
    have refused := Mapper.Blames.kind admitted found
    cases located : context.mapper.model? name with
    | none =>
      have same := known.resolve_left (by simp [located])
      rw [Mapper.model, located, same]
      exact Judges.throw refused
    | some declared =>
      rw [Mapper.model_ok.mpr located]
      change Judges (Bson.document <$> entity context declared subject _) _ _
      rw [entity, modelFor_unknown sound located found]
      exact (Judges.throw refused).map Bson.document
  | some model =>
    have registered := (Mapper.model?_some found).1
    obtain ⟨declared, located⟩ : ∃ declared, context.mapper.model? name = some declared := by
      rcases known with has | rfl
      · exact Option.isSome_iff_exists.mp has
      · exact ⟨model, found⟩
    rw [Mapper.model_ok.mpr located]
    change Judges (Bson.document <$> entity context declared subject _) _ _
    rw [entity, modelFor_eq sound (Mapper.model?_some located).1 found]
    change Judges (Bson.document <$> ofModel context model subject _) _ _
    rw [silent.ofModel registered]
    refine ((entries_judges sound registered each []).weaken
      (fun fits => Mapper.fits_entity.mpr ⟨admitted, model, found, fits⟩) ?_).map Bson.document
    rintro cause ⟨before, field, after, order, earlier, source, rfl, writes, blamed⟩
    exact .field admitted found order earlier writes blamed

/-- A value is stored by the codec of a type where it fits the type, and a failure says what does
not fit. -/
theorem value_judges (sound : context.mapper.Sound) (silent : context.mapper.Silent)
    (subject : Value) : ∀ type codec, context.mapper.registry.codec type = .ok codec →
      Judges (value context subject codec) (context.mapper.ValueFits subject type)
        (context.mapper.Blames subject type) := by
  induction subject using Value.parts_induction with
  | single single simple =>
    intro type codec coded
    rw [value_single simple, ← Registry.fieldType_codec coded]
    exact plain_judges simple codec
  | array values each =>
    intro type codec coded
    cases type with
    | list element =>
      obtain ⟨inner, inside, rfl⟩ := ok_of_map coded
      rw [value]
      exact array_judges rfl fun item member => each item member element inner inside
    | any =>
      cases coded
      rw [value]
      exact array_judges rfl fun item member => each item member .any .any rfl
    | _ =>
      have same := Registry.fieldType_codec coded
      cases codec <;> cases same
      simp only [value]
      exact Judges.throw (.form rfl)
  | map values each =>
    intro type codec coded
    cases type with
    | map element =>
      obtain ⟨inner, inside, rfl⟩ := ok_of_map coded
      rw [value]
      exact map_judges rfl fun entry member => each entry member element inner inside
    | any =>
      cases coded
      rw [value]
      exact map_judges rfl fun entry member => each entry member .any .any rfl
    | _ =>
      have same := Registry.fieldType_codec coded
      cases codec <;> cases same
      simp only [value]
      exact Judges.throw (.form rfl)
  | entity kind properties each =>
    intro type codec coded
    cases type with
    | entity name =>
      obtain ⟨rfl, has⟩ := Registry.codec_entity coded
      rw [sound.known] at has
      rw [value]
      exact @entity_judges _ sound silent ⟨kind, properties⟩ _ rfl name (.inl has) each
    | any =>
      cases coded
      rw [value]
      exact @entity_judges _ sound silent ⟨kind, properties⟩ _ rfl kind (.inr rfl) each
    | _ =>
      have same := Registry.fieldType_codec coded
      cases codec <;> cases same
      simp only [value]
      exact Judges.throw (.form rfl)

end Stored

namespace Mapper

variable {mapper : Mapper}

/-- A field that is blamed for a failure does not fit. -/
theorem FieldBlames.not_fits (sound : mapper.Sound) {entity : Entity} {field : Field}
    {source : MappingError} (blamed : mapper.FieldBlames entity field source) :
    ¬ mapper.FieldFits entity field :=
  fun fits => blamed.2.not_fits sound (fits blamed.1)

/-- The field that an entity is given an id for is the id field, and has no value yet. -/
theorem needsId_idField {options : Options} {model : EntityModel} {entity : Entity}
    {field : Field} (needed : Encoding.needsId options model entity = some field) :
    model.idField = some field ∧ entity.valueOf field.name = .null := by
  obtain ⟨-, identity, -, empty⟩ := Encoding.needsId_eq_some.mp needed
  refine ⟨identity, ?_⟩
  cases value : entity.valueOf field.name with
  | null => rfl
  | _ => simp [value, Value.isNull] at empty

/-- An id that an entity is given fits its field, so it does not change whether the entity is
good, unless the property of the id is that of another field too. -/
theorem good_assignId {entity : Entity} {model : EntityModel}
    (found : mapper.model? entity.kind = some model)
    (apart : ∀ identity, model.idField = some identity → ∀ field ∈ model.fields,
      field.name = identity.name → field = identity) (session : Session) :
    mapper.Good (Encoding.assignId mapper.options model entity session).1 ↔
      mapper.Good entity := by
  unfold Encoding.assignId
  split
  · rename_i identity needed
    obtain ⟨known, empty⟩ := needsId_idField needed
    have accepts := (Encoding.needsId_some needed).2
    change mapper.Good (entity.set identity.name (.objectId session.draw.1)) ↔ _
    generalize session.draw.1 = fresh
    have same : ∀ field ∈ model.fields,
        mapper.FieldFits (entity.set identity.name (.objectId fresh)) field ↔
          mapper.FieldFits entity field := by
      intro field declared
      unfold FieldFits Writes Entity.valueOf
      by_cases here : field.name = identity.name
      · obtain rfl := apart identity known field declared here
        have given := entity.get?_set_self field.name (.objectId fresh)
        rw [if_neg (by simp [Value.isNull])] at given
        have suits : mapper.ValueFits (.objectId fresh) field.type := by
          refine .single rfl ?_
          cases kind : field.type with
          | scalar scalar =>
            cases scalar <;> first | rfl | simp [kind, FieldType.acceptsObjectId] at accepts
          | any => rfl
          | _ => simp [kind, FieldType.acceptsObjectId] at accepts
        rw [given]
        exact ⟨fun _ writes => absurd empty writes.2, fun _ _ => suits⟩
      · rw [Entity.get?_set_other here]
    unfold Good
    rw [Entity.set_kind, found]
    refine exists_congr fun other => and_congr_right fun chosen => ?_
    obtain rfl := Option.some.inj chosen
    exact forall₂_congr same
  · rfl

/-- A mapper without hooks stores just the good entities, each as the call leaves it, with the id
that it may have been given. A failure names the first field, in the order of writing, that does
not fit, and says what of its value is to blame, down to a value of an unexpected form or to a kind
without a model. The id makes a difference only where another field has the same property. -/
theorem toDocument_ok_iff_good {plan : MapperPlan} {entity : Entity} {session : Session}
    {model : EntityModel} (built : plan.assemble = .ok mapper) (silent : mapper.Silent)
    (found : mapper.model? entity.kind = some model) :
    let encoded := mapper.toDocument entity session
    ((∃ document, encoded.outcome = .ok document) ↔ mapper.Good encoded.entity) ∧
      (∀ cause, encoded.outcome = .error cause → ∃ before field after source,
        cause = .encoding entity.kind field.name source ∧
          model.writingOrder = before ++ field :: after ∧
          (∀ other ∈ before, mapper.FieldFits encoded.entity other) ∧
          ¬ mapper.FieldFits encoded.entity field ∧
          mapper.Blames (encoded.entity.valueOf field.name) field.type source ∧
          ((∃ expected shown, source.bottom = .unexpectedValue expected shown) ∨
            ∃ kind, source.bottom = .noCodec kind)) ∧
      ((∀ identity, model.idField = some identity → ∀ field ∈ model.fields,
          field.name = identity.name → field = identity) →
        (mapper.Good encoded.entity ↔ mapper.Good entity)) := by
  have sound := MapperPlan.sound_of_assemble built
  obtain ⟨registered, named⟩ := model?_some found
  have kept := Encoding.assignId_kind mapper.options model entity session
  have unchanged := fun apart => good_assignId found apart session
  rw [toDocument_eq found]
  generalize Encoding.assignId mapper.options model entity session = assigned at kept unchanged
  obtain ⟨given, after⟩ := assigned
  dsimp only at kept unchanged ⊢
  have judges := @Stored.entries_judges mapper.context sound model registered given
    (fun entry _ => Stored.value_judges sound silent entry.2) []
  rw [← @Silent.ofModel mapper.context model silent registered given] at judges
  have declared : ∀ field, field ∈ model.writingOrder ↔ field ∈ model.fields :=
    fun _ => (sound.checked model registered).mem_writingOrder
  refine ⟨?_, fun cause failed => ?_, unchanged⟩
  · have decided := judges.exists_ok_iff (fun cause blamed fits => ?_) after
    · refine decided.trans ⟨fun fits => ⟨model, kept.symm ▸ found, fits⟩, ?_⟩
      rintro ⟨other, chosen, fits⟩
      rw [kept, found] at chosen
      exact Option.some.inj chosen ▸ fits
    · obtain ⟨before, field, rest, order, -, source, -, blamed⟩ := blamed
      exact blamed.not_fits sound (fits field ((declared field).mp (by simp [order])))
  · obtain ⟨before, field, rest, order, earlier, source, same, blamed⟩ :=
      judges.fails after cause _ (Prod.ext failed rfl)
    exact ⟨before, field, rest, source, named ▸ same, order, earlier, blamed.not_fits sound,
      blamed.2, blamed.2.bottom⟩

/-- Shelves of books with titles. -/
def titledShelves : MapperPlan :=
  ⟨.standard, [{ EntityModel.blank "Book" with fields := [.plain "title" (.scalar .string)] },
    { EntityModel.blank "Shelf" with fields :=
      [.plain "books" (.list (.entity "Book")), .id "id" (.scalar .objectId)] }], [], []⟩

/-- A shelf whose last book has a number for a title is not good, with its id or without, and the
failure names the books of the shelf, then the title of the book. -/
theorem toDocument_ok_iff_good_shelf : ∃ mapper,
    let book := fun title => Value.ofEntity ((Entity.empty "Book").set "title" title)
    let shelf := (Entity.empty "Shelf").set "books"
      (.array [book (.string "Ada"), .null, book (.int32 7)])
    let encoded := mapper.toDocument shelf (.start fun _ => ⟨7⟩)
    titledShelves.assemble = .ok mapper ∧ mapper.Silent ∧
      encoded.outcome = .error (.encoding "Shelf" "books"
        (.encoding "Book" "title" (.unexpectedValue (.scalar .string) "int32"))) ∧
      ¬ mapper.Good encoded.entity ∧ ¬ mapper.Good shelf := by
  obtain ⟨mapper, built⟩ : ∃ mapper, titledShelves.assemble = .ok mapper := ⟨_, rfl⟩
  have silent : mapper.Silent := by
    cases built
    refine ⟨rfl, fun model registered kind => ?_⟩
    rcases List.mem_cons.mp registered with rfl | other
    · rfl
    · obtain rfl := List.mem_singleton.mp other
      rfl
  obtain ⟨model, found, apart⟩ : ∃ model, mapper.model? "Shelf" = some model ∧
      ∀ identity, model.idField = some identity → ∀ field ∈ model.fields,
        field.name = identity.name → field = identity := by
    cases built
    refine ⟨_, rfl, fun identity known field declared same => ?_⟩
    cases known
    rcases List.mem_cons.mp declared with rfl | other
    · exact absurd same (by decide)
    · obtain rfl := List.mem_singleton.mp other
      rfl
  have failed : (do
      let mapper ← titledShelves.assemble
      (mapper.toDocument ((Entity.empty "Shelf").set "books" (.array [
          .ofEntity ((Entity.empty "Book").set "title" (.string "Ada")), .null,
          .ofEntity ((Entity.empty "Book").set "title" (.int32 7))]))
        (.start fun _ => ⟨7⟩)).outcome) = .error (.encoding "Shelf" "books"
          (.encoding "Book" "title" (.unexpectedValue (.scalar .string) "int32"))) := by decide +kernel
  rw [built] at failed
  obtain ⟨decided, -, given⟩ := @toDocument_ok_iff_good mapper titledShelves
    ((Entity.empty "Shelf").set "books" (.array [
      .ofEntity ((Entity.empty "Book").set "title" (.string "Ada")), .null,
      .ofEntity ((Entity.empty "Book").set "title" (.int32 7))]))
    (.start fun _ => ⟨7⟩) model built silent found
  have bad := mt decided.mpr fun stored => by
    obtain ⟨document, stored⟩ := stored
    cases failed.symm.trans stored
  exact ⟨mapper, built, silent, failed, bad, mt (given apart).mpr bad⟩

/-- Cards whose id is stored a second time, as a text. -/
def labelledCards : MapperPlan :=
  ⟨.standard, [{ EntityModel.blank "Card" with
    fields := [.id "key" (.scalar .objectId),
      (Field.plain "key" (.scalar .string)).storedAs "label"] }], [], []⟩

/-- A card without properties is good and is not stored: the id that it is given is no text. -/
theorem toDocument_refuses_card : ∃ mapper,
    labelledCards.assemble = .ok mapper ∧ mapper.Silent ∧ mapper.Good (.empty "Card") ∧
      (mapper.toDocument (.empty "Card") (.start fun _ => ⟨7⟩)).outcome =
        .error (.encoding "Card" "key" (.unexpectedValue (.scalar .string) "objectId")) := by
  obtain ⟨mapper, built⟩ : ∃ mapper, labelledCards.assemble = .ok mapper := ⟨_, rfl⟩
  have silent : mapper.Silent := by
    cases built
    refine ⟨rfl, fun model registered kind => ?_⟩
    obtain rfl := List.mem_singleton.mp registered
    rfl
  have good : mapper.Good (.empty "Card") := by
    cases built
    exact ⟨_, rfl, fun field _ writes => absurd rfl writes.2⟩
  have failed : (do
      let mapper ← labelledCards.assemble
      (mapper.toDocument (.empty "Card") (.start fun _ => ⟨7⟩)).outcome) =
        .error (.encoding "Card" "key" (.unexpectedValue (.scalar .string) "objectId")) := by decide +kernel
  rw [built] at failed
  exact ⟨mapper, built, silent, good, failed⟩

end Mapper

end EntityMapping
