import EntityMapping.Decidable
import EntityMapping.Model.Declaration
import EntityMapping.Proofs.Decoding.Reading
import EntityMapping.Proofs.Mapper.Sound
import EntityMapping.Proofs.Stream.Positions
/-!
# Decoding keeps its place

Wherever a value starts in a token stream, a codec that decodes it leaves the
reader right behind the value. The steps that look ahead, go back or read a value
twice are no exception. It follows that no decoding runs off its stream or meets a
token it does not expect: whatever else goes wrong, the only complaint about the
stored document itself is that a value has another type.
-/

namespace EntityMapping

/-- A step that reads the tokens of a part leaves the reader right behind them. -/
theorem Reads.behind {α : Type} {action : DecodeM α} {meaning : SessionM α} {whole part : Bson}
    {start : Nat} (starts : whole.StartsAt start part)
    (reads : ∀ left, Reads action part.tokens left meaning) {session : Session} {value : α}
    {after : DecodeState}
    (ran : perform action ⟨Reader.within whole start, session⟩ = (.ok value, after)) :
    after.reader = Reader.within whole (start + part.tokens.length) := by
  obtain ⟨left, stands, behind⟩ := starts.stands
  obtain ⟨reader, outcome, last⟩ := reads left start session
  rw [stands, outcome] at ran
  obtain ⟨succeeded, rfl⟩ := Prod.mk.inj ran
  rw [behind]
  exact last value succeeded

/-! ## Codecs of known types -/

/-- The entity that the values of a type embed, if they embed one. -/
def FieldType.embedded : FieldType → Option String
  | .list element => element.embedded
  | .map value => value.embedded
  | .entity name => some name
  | _ => none

/-- A sound mapper has a codec for every type that embeds no entity but a registered one. -/
theorem Mapper.Sound.codec {mapper : Mapper} (sound : mapper.Sound) {type : FieldType}
    (known : ∀ name, type.embedded = some name → (mapper.model? name).isSome = true) :
    ∃ codec, mapper.registry.codec type = .ok codec := by
  induction type with
  | scalar type => exact ⟨.scalar type, rfl⟩
  | list element ih =>
    obtain ⟨codec, found⟩ := ih known
    exact ⟨.list codec, Registry.codec_list found⟩
  | map value ih =>
    obtain ⟨codec, found⟩ := ih known
    exact ⟨.map codec, Registry.codec_map found⟩
  | entity name =>
    have registered : mapper.registry.has name = true := by
      rw [sound.known]
      exact known name rfl
    exact ⟨.entity name, by rw [Registry.codec, if_pos registered]⟩
  | any => exact ⟨.any, rfl⟩

/-! ## Complaints about the document -/

namespace MappingError

/-- The failures of writing or reading a document among a failure and its sources. -/
def documentErrors : MappingError → List DocumentError
  | encoding _ _ source => documentErrors source
  | decoding _ _ source => documentErrors source
  | document cause => [cause]
  | _ => []

/-- A failure that complains about a document only where a value has another type. -/
def MismatchOnly (failure : MappingError) : Prop :=
  ∀ cause ∈ failure.documentErrors, cause.isTypeMismatch = true

/-- A failure that does not complain about a document. -/
theorem MismatchOnly.of_none {failure : MappingError} (none : failure.documentErrors = []) :
    failure.MismatchOnly := by
  intro cause member
  rw [none] at member
  cases member

end MappingError

namespace Conversion

variable {convert : Value → Except MappingError Value}
  (each : ∀ {value cause}, convert value = .error cause → cause.documentErrors = [])

include each

/-- A failed conversion of items does not complain about a document if none of an item does. -/
theorem documentErrors_items {items : List Value} {cause : MappingError}
    (failed : convertItems convert items = .error cause) : cause.documentErrors = [] := by
  induction items generalizing cause with
  | nil => cases failed
  | cons item rest ih =>
    rcases error_of_bind failed with first | ⟨converted, failed⟩
    · exact each first
    · rcases error_of_bind failed with later | ⟨others, failed⟩
      · exact ih later
      · cases failed

/-- A failed conversion of entries does not complain about a document if none of a value
does. -/
theorem documentErrors_entries {entries : List (String × Value)} {cause : MappingError}
    (failed : convertEntries convert entries = .error cause) : cause.documentErrors = [] := by
  induction entries generalizing cause with
  | nil => cases failed
  | cons entry rest ih =>
    rcases error_of_bind failed with first | ⟨converted, failed⟩
    · exact each first
    · rcases error_of_bind failed with later | ⟨others, failed⟩
      · exact ih later
      · cases failed

end Conversion

/-- A failed conversion does not complain about a document. -/
theorem documentErrors_convert {target : FieldType} {value : Value} {cause : MappingError}
    (failed : convert target value = .error cause) : cause.documentErrors = [] := by
  induction target generalizing value cause with
  | scalar type =>
    unfold convert at failed
    split at failed
    · cases failed
    · dsimp only at failed
      split at failed
      · cases failed
      · cases failed
        rfl
  | list element ih =>
    unfold convert at failed
    split at failed
    · cases failed
    · dsimp only at failed
      split at failed
      · exact Conversion.documentErrors_items ih (error_of_map failed)
      · exact ih (error_of_map failed)
  | map entryType ih =>
    unfold convert at failed
    split at failed
    · cases failed
    · dsimp only at failed
      split at failed
      · exact Conversion.documentErrors_entries ih (error_of_map failed)
      · cases failed
        rfl
  | entity name =>
    unfold convert at failed
    split at failed
    · cases failed
    · cases failed
      rfl
  | any =>
    unfold convert at failed
    split at failed
    · cases failed
    · cases failed
      rfl

/-- A hook fails as a hook, whatever its own failure is. -/
theorem documentErrors_failed (kind : HookKind) (entity : String) (cause : MappingError) :
    (Hook.failed kind entity cause).documentErrors = [] := by
  cases cause <;> rfl

open MappingError

/-- Hooks run one after the other fail as hooks. -/
theorem runAll_mismatchOnly (services : Services) (kind : HookKind) (model : String)
    (entity : Entity) (hooks : List Hook) (document : Document) :
    FailsWith (Hook.runAll services kind model entity hooks document) MismatchOnly := by
  induction hooks generalizing document with
  | nil => exact FailsWith.pure document
  | cons hook rest ih =>
    refine FailsWith.andThen ?_ ih
    exact FailsWith.tryCatch fun cause =>
      FailsWith.throw (.of_none (documentErrors_failed kind model cause))

namespace Meaning

variable {context : MappingContext}

/-- A value of another type than expected is such a complaint. -/
theorem mismatch_mismatchOnly (expected : ElementType) (stored : Bson) :
    (mismatch expected stored).MismatchOnly := by
  intro cause member
  obtain rfl := List.mem_singleton.mp member
  rfl

/-- A model that is not found is no complaint about a document. -/
theorem model_mismatchOnly (mapper : Mapper) (name : String) :
    FailsWith (SessionM.ofExcept (mapper.model name)) MismatchOnly := by
  apply SessionM.failsWith_ofExcept
  intro cause failed
  obtain rfl := Mapper.model_error failed
  exact .of_none rfl

/-- The only complaint about a discriminator is that it is no text. -/
theorem modelOfDocument_mismatchOnly (mapper : Mapper) (declared : EntityModel)
    (document : Document) :
    FailsWith (SessionM.ofExcept (Decoding.modelOfDocument mapper declared document))
      MismatchOnly := by
  apply SessionM.failsWith_ofExcept
  intro cause failed
  unfold Decoding.modelOfDocument at failed
  split at failed
  · cases failed
  · split at failed
    · unfold Mapper.modelForDiscriminator at failed
      split at failed
      · cases failed
      · cases failed
        exact .of_none rfl
    · cases failed
      exact mismatch_mismatchOnly .string _
    · cases failed

/-- A stored scalar. -/
theorem scalar_mismatchOnly (type : ScalarType) (stored : Bson) :
    FailsWith (scalar type stored) MismatchOnly := by
  unfold scalar
  split
  · exact FailsWith.pure _
  · exact FailsWith.throw (mismatch_mismatchOnly _ stored)

/-- A stored value that may be null. -/
theorem nullable_mismatchOnly {child : Bson → SessionM Value}
    (each : ∀ stored, FailsWith (child stored) MismatchOnly) (stored : Bson) :
    FailsWith (nullable child stored) MismatchOnly := by
  unfold nullable
  split
  · exact FailsWith.pure _
  · exact each stored

/-- The items of an array. -/
theorem items_mismatchOnly {child : Bson → SessionM Value}
    (each : ∀ stored, FailsWith (child stored) MismatchOnly) (stored : List Bson) :
    FailsWith (items child stored) MismatchOnly :=
  (FailsWith.mapM fun item _ => each item).map Value.array

/-- The entries of a map. -/
theorem entries_mismatchOnly {child : Bson → SessionM Value}
    (each : ∀ stored, FailsWith (child stored) MismatchOnly) (stored : List (String × Bson)) :
    FailsWith (entries child stored) MismatchOnly := by
  have walk : FailsWith (stored.foldlM (entry child) []) MismatchOnly :=
    FailsWith.foldlM (fun found item _ =>
      (each item.2).andThen fun value => FailsWith.pure _) []
  exact walk.map Value.map

section

variable {child : Codec → Bson → SessionM Value}
  (each : ∀ codec stored, FailsWith (child codec stored) MismatchOnly)

include each

/-- The value of a field, at the first and at the second reading. -/
theorem fieldValue_mismatchOnly (model : EntityModel) (field : Field) (stored : Bson) :
    FailsWith (fieldValue child model field stored) MismatchOnly := by
  unfold fieldValue
  split
  · exact FailsWith.pure _
  have resolved : FailsWith (SessionM.ofExcept field.resolved) MismatchOnly := by
    apply SessionM.failsWith_ofExcept
    intro cause failed
    unfold Field.resolved at failed
    split at failed
    · cases failed
    · cases failed
      exact .of_none rfl
  refine resolved.andThen fun codec => ?_
  have tried := SessionM.ensures_attempt_error (each codec stored)
  refine (SessionM.failsWith_attempt (child codec stored) MismatchOnly).bind tried
    fun outcome known => ?_
  cases outcome with
  | ok value => exact FailsWith.pure value
  | error cause =>
    -- A mismatch is dropped for what the second reading gives; any other failure is passed on.
    dsimp only
    split
    · refine (each .any stored).andThen fun raw => ?_
      apply SessionM.failsWith_ofExcept
      intro failure failed
      cases converted : convert field.type raw with
      | ok value =>
        rw [converted] at failed
        cases failed
      | error source =>
        rw [converted] at failed
        cases failed
        have none : source.documentErrors = [] := documentErrors_convert converted
        exact .of_none none
    · exact FailsWith.throw (known cause rfl)

/-- The entity of a model in a document, without hooks. -/
theorem properties_mismatchOnly (model : EntityModel) (document : Document) :
    FailsWith (properties child model document) MismatchOnly := by
  refine FailsWith.foldlM (fun entity stored _ => ?_) _
  unfold property
  split
  · exact FailsWith.pure entity
  · split
    · exact (fieldValue_mismatchOnly each model _ _).map _
    · exact FailsWith.pure entity

/-- The entity of a model in a document that hooks see as a whole. -/
theorem hooked_mismatchOnly (model : EntityModel) (stored : Document) :
    FailsWith (hooked context child model stored) MismatchOnly := by
  refine (runAll_mismatchOnly _ _ _ _ _ _).andThen fun changed => ?_
  refine (properties_mismatchOnly each model changed).andThen fun entity => ?_
  refine ((runAll_mismatchOnly _ _ _ _ _ _).map _).andThen fun _ => ?_
  exact FailsWith.pure entity

/-- The entity in a document that hooks see, declared as a model. -/
theorem withHooks_mismatchOnly (declared : EntityModel) (checked : Bool)
    (stored : List (String × Bson)) :
    FailsWith (withHooks context child declared checked stored) MismatchOnly := by
  unfold withHooks
  split
  · exact hooked_mismatchOnly each declared _
  · exact (modelOfDocument_mismatchOnly _ _ _).andThen fun model =>
      hooked_mismatchOnly each model _

/-- The entity in a document, declared as a model. -/
theorem entity_mismatchOnly (declared : EntityModel) (checked : Bool)
    (stored : List (String × Bson)) :
    FailsWith (entity context child declared checked stored) MismatchOnly := by
  unfold entity
  split
  · exact withHooks_mismatchOnly each declared checked stored
  · split
    · exact properties_mismatchOnly each declared stored
    · refine (modelOfDocument_mismatchOnly _ _ _).andThen fun model => ?_
      split
      · exact withHooks_mismatchOnly each model true stored
      · exact properties_mismatchOnly each model stored

/-- A stored entity, declared by the name of its model. -/
theorem embedded_mismatchOnly (name : String) (stored : Bson) :
    FailsWith (embedded context child name stored) MismatchOnly := by
  unfold embedded
  split
  · refine (model_mismatchOnly _ name).andThen fun declared => ?_
    exact (entity_mismatchOnly each declared false _).map Value.ofEntity
  · exact FailsWith.throw (mismatch_mismatchOnly _ _)

/-- A stored value for what it is. -/
theorem any_mismatchOnly (stored : Bson) :
    FailsWith (any context child stored) MismatchOnly := by
  unfold any
  split
  · split
    · exact (entity_mismatchOnly each _ false _).map Value.ofEntity
    · exact FailsWith.pure _
  · exact items_mismatchOnly (each .any) _
  · exact FailsWith.pure _

end

/-- A stored value by a codec. -/
theorem value_mismatchOnly (context : MappingContext) :
    ∀ (depth : Nat) (codec : Codec) (stored : Bson),
      FailsWith (value context depth codec stored) MismatchOnly
  | 0, _, _ => FailsWith.throw (.of_none rfl)
  | _ + 1, .scalar type, stored => scalar_mismatchOnly type stored
  | depth + 1, .list element, stored => by
    rw [value]
    unfold list
    split
    · exact items_mismatchOnly
        (nullable_mismatchOnly (value_mismatchOnly context depth element)) _
    · exact FailsWith.throw (mismatch_mismatchOnly _ _)
  | depth + 1, .map element, stored => by
    rw [value]
    unfold map
    split
    · exact entries_mismatchOnly
        (nullable_mismatchOnly (value_mismatchOnly context depth element)) _
    · exact FailsWith.throw (mismatch_mismatchOnly _ _)
  | depth + 1, .entity name, stored =>
    embedded_mismatchOnly (value_mismatchOnly context depth) name stored
  | depth + 1, .any, stored => any_mismatchOnly (value_mismatchOnly context depth) stored

end Meaning

namespace Mapper

variable {mapper : Mapper}

/-- A decoding complains about its document only where a value has another type. -/
theorem mismatchOnly_fromDocument {kind : String} {document : Document} {session : Session}
    {cause : MappingError} (failed : (mapper.fromDocument kind document session).1 = .error cause) :
    cause.MismatchOnly := by
  have always : FailsWith (do
      let declared ← SessionM.ofExcept (mapper.model kind)
      Meaning.entity mapper.context
        (Meaning.value mapper.context (Decoding.depthFor (Reader.ofDocument document)))
        declared false document) MismatchOnly := by
    refine (Meaning.model_mismatchOnly mapper kind).andThen fun declared => ?_
    exact Meaning.entity_mismatchOnly (Meaning.value_mismatchOnly mapper.context _)
      declared false document
  rw [fromDocument_eq] at failed
  exact always session cause _ (Prod.ext failed rfl)

/-- Every type whose entities are registered has a codec. Wherever a value starts in a stream,
a codec that decodes it leaves the reader right behind it. A decoding that fails complains about
its document only where a value has another type. -/
theorem decoding_keeps_place {plan : MapperPlan} (built : plan.assemble = .ok mapper) :
    (∀ type : FieldType,
      (∀ name, type.embedded = some name → (mapper.model? name).isSome = true) →
      ∃ codec, mapper.registry.codec type = .ok codec ∧
        ∀ (whole part : Bson) (start : Nat), whole.StartsAt start part →
        ∀ (session : Session) (value : Value) (after : DecodeState),
          mapper.decodeValue codec (Reader.within whole start) session = (.ok value, after) →
          after.reader = Reader.within whole (start + part.tokens.length)) ∧
    ∀ (kind : String) (document : Document) (session : Session) (cause : MappingError),
      (mapper.fromDocument kind document session).1 = .error cause → cause.MismatchOnly := by
  have sound := MapperPlan.sound_of_assemble built
  constructor
  · intro type known
    obtain ⟨codec, found⟩ := sound.codec known
    refine ⟨codec, found, ?_⟩
    intro whole part start starts session value after decoded
    have reads := Decoding.reads_value mapper.context
      (Decoding.depthFor (Reader.within whole start)) codec part
    have ran : perform (Decoding.readValue mapper.context
        (Decoding.depthFor (Reader.within whole start)) codec)
        ⟨Reader.within whole start, session⟩ = (.ok value, after) :=
      (perform_bind_ok (perform_get _) _).symm.trans decoded
    exact Reads.behind starts reads ran
  · intro kind document session cause failed
    exact mismatchOnly_fromDocument failed

/-- Books with a list of texts. -/
def taggedBooks : MapperPlan :=
  ⟨.standard,
    [(EntityModel.blank "Book").declare (.field (.plain "tags" (.list (.scalar .string))))],
    [], []⟩

/-- A book with a number among its tags. -/
def mistaggedBook : Bson :=
  .document [("tags", .array [.string "desert", .int32 5])]

/-- A book whose tags are read a second time, because one of them is a number, is decoded from
the middle of a stream up to its end; a discriminator that is a number is a complaint. -/
theorem decoding_keeps_place_mistagged : ∃ mapper codec value after cause,
    taggedBooks.assemble = .ok mapper ∧ (mapper.model? "Book").isSome = true ∧
      mapper.registry.codec (.entity "Book") = .ok codec ∧
      Bson.StartsAt (.array [.null, mistaggedBook, .null]) 2 mistaggedBook ∧
      mapper.decodeValue codec (Reader.within (.array [.null, mistaggedBook, .null]) 2)
        (.start fun _ => ⟨0⟩) = (.ok value, after) ∧
      after.reader = Reader.within (.array [.null, mistaggedBook, .null])
        (2 + mistaggedBook.tokens.length) ∧
      (mapper.fromDocument "Book" [("_t", .int32 5)] (.start fun _ => ⟨0⟩)).1 = .error cause ∧
      cause.MismatchOnly := by
  obtain ⟨mapper, built⟩ : ∃ mapper, taggedBooks.assemble = .ok mapper := ⟨_, rfl⟩
  obtain ⟨behind, complaints⟩ := decoding_keeps_place built
  have registered : (mapper.model? "Book").isSome = true := by
    cases built
    rfl
  obtain ⟨codec, found, behind⟩ := behind (.entity "Book") fun name same => by
    obtain rfl : "Book" = name := Option.some.inj same
    exact registered
  have starts : Bson.StartsAt (.array [.null, mistaggedBook, .null]) 2 mistaggedBook :=
    @Bson.StartsAt.item [.null] [.null] mistaggedBook mistaggedBook 0 (.whole mistaggedBook)
  obtain rfl : .entity "Book" = codec := by
    cases built
    exact Except.ok.inj found
  have evaluated : (do
      let mapper ← taggedBooks.assemble
      (mapper.decodeValue (.entity "Book") (Reader.within (.array [.null, mistaggedBook, .null]) 2)
        (.start fun _ => ⟨0⟩)).1) =
      .ok (.entity "Book" [("tags", .array [.string "desert", .string "5"])]) := by decide +kernel
  rw [built] at evaluated
  obtain ⟨after, decoded⟩ : ∃ after, mapper.decodeValue (.entity "Book")
      (Reader.within (.array [.null, mistaggedBook, .null]) 2) (.start fun _ => ⟨0⟩) =
        (.ok _, after) := ⟨_, Prod.ext evaluated rfl⟩
  obtain ⟨cause, failed⟩ : ∃ cause,
      (mapper.fromDocument "Book" [("_t", .int32 5)] (.start fun _ => ⟨0⟩)).1 = .error cause := by
    cases built
    exact ⟨_, rfl⟩
  have last := behind _ _ _ starts _ _ _ decoded
  exact ⟨mapper, _, _, after, cause, built, registered, found, starts, decoded, last,
    failed, complaints _ _ _ _ failed⟩

end Mapper

end EntityMapping
