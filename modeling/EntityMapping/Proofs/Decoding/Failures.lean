import EntityMapping.Decidable
import EntityMapping.Proofs.Decoding.Unhooked
import EntityMapping.Proofs.Mapper.Recognition
/-!
# Which field a failed reading names

Without hooks a document is read entry by entry by the model that is chosen for it, so
a reading that fails either finds no model or fails at the first entry whose value is
not read. A value that its codec refuses, and one that is refused a second time because
it cannot be converted, are reported as failures of their field. A value of another
type whose second reading fails is not: the failure comes from a document inside the
value, and names a field of that document alone.
-/

namespace EntityMapping

namespace Mapper

/-- The stored value of a field is read: it is null, its codec reads it, or it is of another
type, is read for what it is and can be converted. -/
inductive ReadsField (mapper : Mapper) (field : Field) (stored : Bson) : Prop
  /-- A null. -/
  | null (empty : stored.elementType = .null)
  /-- A value that its codec reads. -/
  | codec {codec : Codec} {value : Value} (resolved : field.resolved = .ok codec)
    (read : mapper.ReadsAs codec stored (.ok value))
  /-- A value of another type. -/
  | conversion {codec : Codec} {mismatch : MappingError} {raw value : Value}
    (resolved : field.resolved = .ok codec)
    (refused : mapper.ReadsAs codec stored (.error mismatch))
    (other : mismatch.isTypeMismatch = true) (again : mapper.ReadsAs .any stored (.ok raw))
    (converted : convert field.type raw = .ok value)

/-- The stored value of a field of a model is not read, for a reason. -/
inductive FieldFails (mapper : Mapper) (model : EntityModel) (field : Field) (stored : Bson) :
    MappingError → Prop
  /-- The codec fails, and not because the value is of another type. -/
  | codec {codec : Codec} {source : MappingError} (resolved : field.resolved = .ok codec)
    (refused : mapper.ReadsAs codec stored (.error source))
    (known : source.isTypeMismatch = false) :
    FieldFails mapper model field stored (.decoding model.name field.name source)
  /-- The value is of another type and cannot be converted. -/
  | conversion {codec : Codec} {mismatch source : MappingError} {raw : Value}
    (resolved : field.resolved = .ok codec)
    (refused : mapper.ReadsAs codec stored (.error mismatch))
    (other : mismatch.isTypeMismatch = true) (again : mapper.ReadsAs .any stored (.ok raw))
    (failed : convert field.type raw = .error source) :
    FieldFails mapper model field stored (.decoding model.name field.name source)
  /-- The value is of another type, and cannot be read for what it is either. -/
  | again {codec : Codec} {mismatch cause : MappingError} (resolved : field.resolved = .ok codec)
    (refused : mapper.ReadsAs codec stored (.error mismatch))
    (other : mismatch.isTypeMismatch = true) (again : mapper.ReadsAs .any stored (.error cause)) :
    FieldFails mapper model field stored cause

/-- An entry of a document is read as a model: it is the discriminator, belongs to no field, or
its value is read. -/
def ReadsEntry (mapper : Mapper) (model : EntityModel) (entry : String × Bson) : Prop :=
  model.activeKey = some entry.1 ∨
    ∀ field, model.fieldStoredAs entry.1 = some field → mapper.ReadsField field entry.2

/-- The value of an entry of a document is not read as that of a field of a model. -/
def EntryFails (mapper : Mapper) (model : EntityModel) (entry : String × Bson)
    (cause : MappingError) : Prop :=
  model.activeKey ≠ some entry.1 ∧
    ∃ field, model.fieldStoredAs entry.1 = some field ∧ mapper.FieldFails model field entry.2 cause

/-- A failure names a field of a registered model. -/
def NamesField (mapper : Mapper) (cause : MappingError) : Prop :=
  ∃ model ∈ mapper.models, ∃ field ∈ model.fields, ∃ source,
    cause = .decoding model.name field.name source

variable {mapper : Mapper}

namespace Silent

/-- The outcome of a reading is what the value reads as. -/
theorem attempt_readsAs (silent : mapper.Silent) {depth : Nat} {codec : Codec} {stored : Bson}
    (deep : stored.tokens.length ≤ depth) :
    Ensures (SessionM.attempt (Meaning.value mapper.context depth codec stored))
      (mapper.ReadsAs codec stored) := by
  intro session outcome after ran
  rw [SessionM.perform_attempt] at ran
  obtain ⟨same, -⟩ := Prod.mk.inj ran
  exact silent.readsAs deep (Prod.ext (Except.ok.inj same) rfl)

/-- A value is read, or the failure says why it is not. -/
theorem fieldValue_judges (silent : mapper.Silent) (model : EntityModel) {field : Field}
    {codec : Codec} (resolved : field.resolved = .ok codec) {depth : Nat} {stored : Bson}
    (deep : stored.tokens.length ≤ depth) :
    Judges (Meaning.fieldValue (Meaning.value mapper.context depth) model field stored)
      (mapper.ReadsField field stored) (mapper.FieldFails model field stored) := by
  unfold Meaning.fieldValue
  split
  · rename_i empty
    exact Judges.pure Value.null (.null empty)
  rw [resolved, SessionM.ofExcept, pure_bind]
  refine Judges.after (silent.attempt_readsAs deep) (SessionM.failsWith_attempt _ _)
    fun outcome reads => ?_
  cases outcome with
  | ok value => exact Judges.pure value (.codec resolved reads)
  | error cause =>
    dsimp only
    split
    · rename_i other
      have given : Ensures (Meaning.value mapper.context depth .any stored) fun raw =>
          mapper.ReadsAs .any stored (.ok raw) :=
        fun session raw after ran => silent.readsAs deep ran
      refine Judges.after given ?_ fun raw again => ?_
      · exact fun session cause after ran => .again resolved reads other (silent.readsAs deep ran)
      · cases converted : convert field.type raw with
        | ok value => exact Judges.pure value (.conversion resolved reads other again converted)
        | error source => exact Judges.throw (.conversion resolved reads other again converted)
    · rename_i known
      exact Judges.throw (.codec resolved reads (by simpa using known))

/-- The entries of a document are read as those of a model, or the failure is that of the first
one that is not. -/
theorem properties_judges (silent : mapper.Silent) (sound : mapper.Sound) {model : EntityModel}
    (registered : model ∈ mapper.models) {depth : Nat} {document : Document}
    (deep : ∀ entry ∈ document, entry.2.tokens.length ≤ depth) :
    Judges (Meaning.properties (Meaning.value mapper.context depth) model document)
      (∀ entry ∈ document, mapper.ReadsEntry model entry)
      (BlamesFirst (mapper.ReadsEntry model) (mapper.EntryFails model) document) := by
  refine Judges.foldlM (fun entity entry member => ?_) _
  unfold Meaning.property
  split
  · rename_i marked
    exact Judges.pure entity (.inl marked)
  · rename_i unmarked
    split
    · rename_i field found
      have declared := (EntityModel.fieldStoredAs_some found).1
      obtain ⟨codec, assigned, -⟩ := sound.resolved model registered field declared
      have judged := silent.fieldValue_judges model (by rw [Field.resolved, assigned])
        (deep entry member)
      refine (judged.weaken (fun reads => .inr fun other same => ?_) fun cause fails =>
        ⟨unmarked, field, found, fails⟩).map _
      exact Option.some.inj (found.symm.trans same) ▸ reads
    · rename_i missing
      exact Judges.pure entity (.inr fun field found => by simp [missing] at found)

end Silent

/-- The value of a field is not read for a reason that names a field, where that holds of what is
read for what it is. -/
theorem fieldValue_names {child : Codec → Bson → SessionM Value} {model : EntityModel}
    (registered : model ∈ mapper.models) {field : Field} (declared : field ∈ model.fields)
    {codec : Codec} (resolved : field.resolved = .ok codec) {stored : Bson}
    (again : FailsWith (child .any stored) mapper.NamesField) :
    FailsWith (Meaning.fieldValue child model field stored) mapper.NamesField := by
  have named : ∀ source, mapper.NamesField (.decoding model.name field.name source) :=
    fun source => ⟨model, registered, field, declared, source, rfl⟩
  unfold Meaning.fieldValue
  split
  · exact FailsWith.pure _
  rw [resolved, SessionM.ofExcept, pure_bind]
  refine FailsWith.andThen (SessionM.failsWith_attempt (child codec stored) _) fun outcome => ?_
  split
  · exact FailsWith.pure _
  · split
    · refine again.andThen fun raw => SessionM.failsWith_ofExcept fun cause failed => ?_
      cases converted : convert field.type raw with
      | ok value => simp [converted, Except.mapError] at failed
      | error source =>
        rw [converted] at failed
        exact Except.error.inj failed ▸ named source
    · exact FailsWith.throw (named _)

/-- The entity of a model is not read for a reason that names a field, where that holds of what is
read for what it is. -/
theorem properties_names {child : Codec → Bson → SessionM Value} (sound : mapper.Sound)
    {model : EntityModel} (registered : model ∈ mapper.models) {document : Document}
    (again : ∀ entry ∈ document, FailsWith (child .any entry.2) mapper.NamesField) :
    FailsWith (Meaning.properties child model document) mapper.NamesField := by
  refine FailsWith.foldlM (fun entity entry member => ?_) _
  unfold Meaning.property
  split
  · exact FailsWith.pure entity
  · split
    · rename_i field found
      have declared := (EntityModel.fieldStoredAs_some found).1
      obtain ⟨codec, assigned, -⟩ := sound.resolved model registered field declared
      exact (fieldValue_names registered declared (by rw [Field.resolved, assigned])
        (again entry member)).map _
    · exact FailsWith.pure entity

/-- A recognised model is the one that its document is read by. -/
theorem modelOfDocument_of_recognise {document : Document} {model : EntityModel}
    (apart : Keyed.Distinct document)
    (recognised : Decoding.recognise mapper (Meaning.document document) = some model) :
    Decoding.modelOfDocument mapper model document = .ok model := by
  rw [Decoding.recognise_document mapper apart, Decoding.recognise_eq] at recognised
  obtain ⟨key, -, under⟩ := List.exists_of_findSome?_eq_some recognised
  exact Decoding.modelOfDocument_of_recogniseUnder under

/-- A value is not read for what it is only because a document in it has a field that is not
read. -/
theorem Silent.any_names (silent : mapper.Silent) (sound : mapper.Sound) :
    ∀ {depth : Nat} {stored : Bson}, stored.tokens.length ≤ depth → stored.Distinct →
      FailsWith (Meaning.value mapper.context depth .any stored) mapper.NamesField
  | 0, stored, deep, _ => absurd deep (Nat.not_le.mpr stored.tokens_length_pos)
  | depth + 1, stored, deep, distinct => by
    have each : ∀ {part : Bson}, part.tokens.length < stored.tokens.length → part.Distinct →
        FailsWith (Meaning.value mapper.context depth .any part) mapper.NamesField :=
      fun smaller apart => silent.any_names sound (by omega) apart
    rw [Meaning.value]
    cases stored with
    | array items =>
      refine (FailsWith.mapM fun item member => ?_).map Value.array
      exact each (Bson.tokens_length_item member) (distinct.of_mem member)
    | document entries =>
      rw [Meaning.any]
      split
      · rename_i model recognised
        have registered := Meaning.recognise_registered recognised
        refine FailsWith.map ?_ Value.ofEntity
        rw [@Silent.entity mapper.context model silent registered,
          modelOfDocument_of_recognise distinct.1 recognised, SessionM.ofExcept, pure_bind]
        refine properties_names sound registered fun entry member => ?_
        exact each (Bson.tokens_length_entry member) (distinct.2.of_mem member)
      · exact FailsWith.pure _
    | _ => exact FailsWith.pure _

/-- The only failures before any field is read are those of the discriminator. -/
theorem modelOfDocument_error {declared : EntityModel} {document : Document} {cause : MappingError}
    (failed : Decoding.modelOfDocument mapper declared document = .error cause) :
    (∃ value, cause = .unknownDiscriminator declared.name value) ∨
      ∃ key source, declared.activeKey = some key ∧
        cause = .decoding declared.name key source := by
  unfold Decoding.modelOfDocument at failed
  split at failed
  · cases failed
  · rename_i key active
    split at failed
    · rename_i value stored
      unfold modelForDiscriminator at failed
      split at failed
      · cases failed
      · exact .inl ⟨value, (Except.error.inj failed).symm⟩
    · exact .inr ⟨key, _, active, (Except.error.inj failed).symm⟩
    · cases failed

/-- A reading without hooks fails because of the discriminator of the document, or at the first
entry of the document that is not read. The failure of an entry names its field and the model that
is chosen for the document, unless the value is of another type and its second reading fails: then
the failure is that of the second reading. In either case it names a field of some model. -/
theorem fromDocument_error_names {plan : MapperPlan} {kind : String} {declared : EntityModel}
    {document : Document} {session : Session} {cause : MappingError}
    (built : plan.assemble = .ok mapper) (silent : mapper.Silent)
    (found : mapper.model? kind = some declared) (distinct : document.Distinct)
    (failed : (mapper.fromDocument kind document session).1 = .error cause) :
    (Decoding.modelOfDocument mapper declared document = .error cause ∧
      ((∃ value, cause = .unknownDiscriminator kind value) ∨
        ∃ key source, declared.activeKey = some key ∧ cause = .decoding kind key source)) ∨
    ∃ model before key stored after field,
      Decoding.modelOfDocument mapper declared document = .ok model ∧
        document = before ++ (key, stored) :: after ∧
        (∀ entry ∈ before, mapper.ReadsEntry model entry) ∧
        model.activeKey ≠ some key ∧ model.fieldStoredAs key = some field ∧
        mapper.FieldFails model field stored cause ∧ mapper.NamesField cause ∧
        ((∃ source, cause = .decoding model.name field.name source) ∨
          mapper.ReadsAs .any stored (.error cause)) := by
  have sound := MapperPlan.sound_of_assemble built
  obtain ⟨registered, named⟩ := model?_some found
  have parts : Keyed.Distinct document ∧ Bson.EntriesDistinct document := by
    simpa [Document.Distinct, Bson.Distinct] using distinct
  rw [fromDocument_eq, model_ok.mpr found] at failed
  generalize whole : Decoding.depthFor (Reader.ofDocument document) = depth at failed
  have deep : ∀ entry ∈ document, entry.2.tokens.length ≤ depth := by
    intro entry member
    have bound := Bson.tokens_length_entry member
    have rest : (Reader.ofDocument document).rest = Bson.tokens (.document document) := rfl
    rw [Decoding.depthFor, rest] at whole
    omega
  change (perform (Meaning.entity mapper.context (Meaning.value mapper.context depth) declared
    false document) session).1 = _ at failed
  rw [@Silent.entity mapper.context declared silent registered, context_mapper] at failed
  cases chosen : Decoding.modelOfDocument mapper declared document with
  | error other =>
    rw [chosen] at failed
    obtain rfl := Except.error.inj failed
    exact .inl ⟨rfl, named ▸ modelOfDocument_error chosen⟩
  | ok model =>
    have known := Meaning.registered_of_chosen registered chosen
    rw [chosen] at failed
    have ran : perform (Meaning.properties (Meaning.value mapper.context depth) model document)
        session = (.error cause, _) := Prod.ext failed rfl
    obtain ⟨before, ⟨key, stored⟩, after, split, earlier, unmarked, field, located, fails⟩ :=
      (silent.properties_judges sound known deep).fails session cause _ ran
    have names := properties_names sound known (fun entry member =>
      silent.any_names sound (deep entry member) (parts.2.of_mem member)) session cause _ ran
    refine .inr ⟨model, before, key, stored, after, field, rfl, split, earlier, unmarked, located,
      fails, names, ?_⟩
    cases fails with
    | codec => exact .inl ⟨_, rfl⟩
    | conversion => exact .inl ⟨_, rfl⟩
    | again _ _ _ again => exact .inr again

/-- Books with a title and notes with a number. -/
def booksAndNotes : MapperPlan :=
  ⟨.standard, [{ EntityModel.blank "Book" with fields := [.plain "title" (.scalar .string)] },
    { EntityModel.blank "Note" with fields := [.plain "number" (.scalar .int32)] }], [], []⟩

/-- Books and notes are without hooks. -/
theorem booksAndNotes_silent (built : booksAndNotes.assemble = .ok mapper) : mapper.Silent := by
  cases built
  refine ⟨rfl, fun model registered kind => ?_⟩
  rcases List.mem_cons.mp registered with rfl | last
  · rfl
  · obtain rfl := List.mem_singleton.mp last
    rfl

/-- A book whose title is a document that is no entity fails with its title. -/
theorem fromDocument_error_names_title : ∃ mapper declared cause,
    let document : Document := [("title", .document [("number", .int32 7)])]
    booksAndNotes.assemble = .ok mapper ∧ mapper.Silent ∧
      mapper.model? "Book" = some declared ∧ document.Distinct ∧
      (mapper.fromDocument "Book" document (.start fun _ => ⟨0⟩)).1 = .error cause ∧
      cause = .decoding "Book" "title" (.conversion (.scalar .string) "map") ∧
      mapper.NamesField cause := by
  obtain ⟨mapper, built⟩ : ∃ mapper, booksAndNotes.assemble = .ok mapper := ⟨_, rfl⟩
  have silent := booksAndNotes_silent built
  obtain ⟨declared, found⟩ : ∃ declared, mapper.model? "Book" = some declared := by
    cases built
    exact ⟨_, rfl⟩
  have distinct : Document.Distinct [("title", .document [("number", .int32 7)])] := by
    simp [Document.Distinct, Bson.Distinct, Bson.EntriesDistinct, Keyed.Distinct, Keyed.keys]
  have failed : (do
      let mapper ← booksAndNotes.assemble
      (mapper.fromDocument "Book" [("title", .document [("number", .int32 7)])]
        (.start fun _ => ⟨0⟩)).1) =
          .error (.decoding "Book" "title" (.conversion (.scalar .string) "map")) := by decide +kernel
  rw [built] at failed
  refine ⟨mapper, declared, _, built, silent, found, distinct, failed, rfl, ?_⟩
  rcases fromDocument_error_names built silent found distinct failed with ⟨unchosen, -⟩ | named
  · cases built
    cases found
    cases unchosen
  · obtain ⟨_, _, _, _, _, _, -, -, -, -, -, -, names, -⟩ := named
    exact names

/-- A book whose title is a note with a text for a number fails with the number of the note, and
neither the book nor its title is named. -/
theorem fromDocument_names_note : ∃ mapper declared cause,
    let document : Document :=
      [("title", .document [("_t", .string "Note"), ("number", .string "many")])]
    booksAndNotes.assemble = .ok mapper ∧ mapper.Silent ∧
      mapper.model? "Book" = some declared ∧
      Decoding.modelOfDocument mapper declared document = .ok declared ∧ document.Distinct ∧
      (mapper.fromDocument "Book" document (.start fun _ => ⟨0⟩)).1 = .error cause ∧
      cause = .decoding "Note" "number" (.conversion (.scalar .int32) "string") ∧
      ∀ field source, cause ≠ .decoding "Book" field source := by
  obtain ⟨mapper, built⟩ : ∃ mapper, booksAndNotes.assemble = .ok mapper := ⟨_, rfl⟩
  have silent := booksAndNotes_silent built
  obtain ⟨declared, found, chosen⟩ : ∃ declared, mapper.model? "Book" = some declared ∧
      Decoding.modelOfDocument mapper declared
        [("title", .document [("_t", .string "Note"), ("number", .string "many")])] =
          .ok declared := by
    cases built
    exact ⟨_, rfl, rfl⟩
  have failed : (do
      let mapper ← booksAndNotes.assemble
      (mapper.fromDocument "Book"
        [("title", .document [("_t", .string "Note"), ("number", .string "many")])]
        (.start fun _ => ⟨0⟩)).1) =
          .error (.decoding "Note" "number" (.conversion (.scalar .int32) "string")) := by decide +kernel
  rw [built] at failed
  refine ⟨mapper, declared, _, built, silent, found, chosen, ?_, failed, rfl, ?_⟩
  · simp [Document.Distinct, Bson.Distinct, Bson.EntriesDistinct, Keyed.Distinct, Keyed.keys]
  · intro field source same
    simp at same

end Mapper

end EntityMapping
