import EntityMapping.Model.Declaration
import EntityMapping.Proofs.Decoding.Outcome
/-!
# How a field is read

A field is read by the codec of its type. Where that finds a value of another type, the value is
read a second time for what it is and converted. Without hooks this comes to the same wherever the
field and the value stand, so that it can be said of the declared type and the stored value alone.
-/

namespace EntityMapping

/-- A property has the value that it was set to. -/
theorem Entity.valueOf_set_self (entity : Entity) (property : String) (value : Value) :
    (entity.set property value).valueOf property = value := by
  rw [valueOf, get?_set_self]
  cases value <;> rfl

/-- A value as a property; null is no value. -/
def Value.asProperty (name : String) (value : Value) : List (String × Value) :=
  if value.isNull then [] else [(name, value)]

/-- Setting a property that an entity does not have appends it. -/
theorem Entity.set_fresh {entity : Entity} {property : String}
    (fresh : property ∉ Keyed.keys entity.properties) (value : Value) :
    entity.set property value =
      ⟨entity.kind, entity.properties ++ value.asProperty property⟩ := by
  unfold set Value.asProperty
  split
  · have kept : Keyed.remove property entity.properties = entity.properties := by
      refine List.filter_eq_self.mpr fun entry member => ?_
      have other : entry.1 ≠ property := fun same =>
        fresh (same ▸ List.mem_map_of_mem member)
      simp [other]
    rw [remove, kept, List.append_nil]
  · rw [Keyed.insert_new fresh]

namespace Mapper

/-- A field of a declared type is read as a value, wherever the stored value comes next, and the
property is set to it; null is no value. -/
def FieldReads (mapper : Mapper) (type : FieldType) (stored : Bson) (value : Value) : Prop :=
  ∀ (model : EntityModel) (field : Field) (codec : Codec) (entity : Entity) (depth position : Nat)
    (left : List Token) (session : Session), field.type = type →
    mapper.registry.codec type = .ok codec → field.codec = some codec →
    stored.tokens.length ≤ depth → ∃ reader,
      perform (Decoding.readField (Decoding.readValue mapper.context depth) model field
        stored.elementType entity) ⟨⟨position, stored.tokens ++ left⟩, session⟩ =
          (.ok (entity.set field.name value), ⟨reader, session⟩)

/-- A field of a declared type in an entity of its own, read from a stored value alone. -/
def readAlone (mapper : Mapper) (type : FieldType) (codec : Codec) (stored : Bson) :
    Except MappingError Entity :=
  (perform (Decoding.readField (Decoding.readValue mapper.context stored.tokens.length)
    (.blank "Alone") { Field.plain "value" type with codec := some codec } stored.elementType
    (.empty "Alone")) ⟨⟨0, stored.tokens⟩, .start fun _ => ⟨0⟩⟩).1

/-- A stored value is taken by a codec: it is null, or the codec reads it. -/
def Takes (mapper : Mapper) (codec : Codec) (stored : Bson) : Prop :=
  stored.elementType = .null ∨ ∃ value, mapper.ReadsAs codec stored (.ok value)

/-- The ways in which the value of a field is read: as a part of a list would be, or it is of
another type, is read for what it is and converted. -/
inductive FieldGives (mapper : Mapper) (type : FieldType) (codec : Codec) (stored : Bson) :
    Value → Prop where
  /-- A null, or a value that its codec reads. -/
  | part {value : Value} (read : mapper.readingPart codec stored = .ok value) :
    FieldGives mapper type codec stored value
  /-- A value of another type. -/
  | conversion {cause : MappingError} {raw value : Value}
    (refused : mapper.readingPart codec stored = .error cause)
    (other : cause.isTypeMismatch = true) (again : mapper.reading .any stored = .ok raw)
    (converted : convert type raw = .ok value) : FieldGives mapper type codec stored value

/-- A stored value is read for what it is, and converted to a value. -/
def ReadsAgain (mapper : Mapper) (type : FieldType) (stored : Bson) (value : Value) : Prop :=
  ∃ raw, mapper.reading .any stored = .ok raw ∧ convert type raw = .ok value

variable {mapper : Mapper} {type : FieldType} {codec : Codec} {stored : Bson} {value : Value}

/-- What is read as a part is what a codec takes. -/
theorem Silent.takes_iff (silent : mapper.Silent) :
    mapper.Takes codec stored ↔ ∃ value, mapper.readingPart codec stored = .ok value := by
  rw [Takes, readingPart]
  split
  · rename_i empty
    exact iff_of_true (.inl empty) ⟨.null, rfl⟩
  · rename_i filled
    simp only [filled, false_or, silent.readsAs_iff]

namespace FieldGives

/-- What is read as a part is what the field gives. -/
theorem part_iff {found : Value} (read : mapper.readingPart codec stored = .ok found) :
    mapper.FieldGives type codec stored value ↔ value = found := by
  constructor
  · rintro (same | ⟨refused, -⟩)
    · exact Except.ok.inj (same.symm.trans read)
    · cases refused.symm.trans read
  · rintro rfl
    exact .part read

/-- What is not read as a part is of another type and is converted. -/
theorem conversion_iff {cause : MappingError}
    (refused : mapper.readingPart codec stored = .error cause) :
    mapper.FieldGives type codec stored value ↔
      cause.isTypeMismatch = true ∧ mapper.ReadsAgain type stored value := by
  constructor
  · rintro (read | ⟨same, other, again, converted⟩)
    · cases refused.symm.trans read
    · obtain rfl := Except.error.inj (same.symm.trans refused)
      exact ⟨other, _, again, converted⟩
  · rintro ⟨other, raw, again, converted⟩
    exact .conversion refused other again converted

/-- A collection is given where it is read part by part, or else where it is read again. -/
theorem iff_or {taken shown : Prop}
    (whole : ∀ found, mapper.readingPart codec stored = .ok found → taken)
    (read : taken → mapper.readingPart codec stored = .ok value)
    (other : ∀ cause, mapper.readingPart codec stored = .error cause →
      cause.isTypeMismatch = true)
    (again : mapper.ReadsAgain type stored value ↔ shown) :
    mapper.FieldGives type codec stored value ↔ taken ∨ shown := by
  cases outcome : mapper.readingPart codec stored with
  | ok found =>
    have all := whole found outcome
    obtain rfl := Except.ok.inj ((read all).symm.trans outcome)
    exact iff_of_true (.part outcome) (.inl all)
  | error cause =>
    rw [conversion_iff outcome, again]
    constructor
    · exact fun known => .inr known.2
    · rintro (all | known)
      · cases (read all).symm.trans outcome
      · exact ⟨other cause outcome, known⟩

end FieldGives

/-- A value is taken where it is read as a part as what the field gives. -/
theorem Silent.takes_iff_gives (silent : mapper.Silent)
    (gives : mapper.FieldGives type codec stored value) :
    mapper.Takes codec stored ↔ mapper.readingPart codec stored = .ok value := by
  rw [silent.takes_iff]
  refine ⟨fun ⟨found, read⟩ => ?_, fun read => ⟨value, read⟩⟩
  rw [(FieldGives.part_iff read).mp gives, read]

/-- The meaning of a field ends as the field gives. -/
theorem Silent.fieldValue_ok_iff (silent : mapper.Silent) (model : EntityModel) {field : Field}
    (typed : field.type = type) (resolved : field.codec = some codec) {depth : Nat}
    (deep : stored.tokens.length ≤ depth) :
    (Meaning.fieldValue (Meaning.value mapper.context depth) model field stored).outcome =
      .ok value ↔ mapper.FieldGives type codec stored value := by
  have steady := fun codec => @Silent.reading_steady mapper.context silent depth codec stored
  have lifted : SessionM.ofExcept field.resolved = pure codec := by
    rw [Field.resolved, resolved]
    rfl
  by_cases filled : stored.elementType = .null
  · have read : mapper.readingPart codec stored = .ok .null := if_pos filled
    rw [Meaning.fieldValue, if_pos filled, FieldGives.part_iff read, SessionM.outcome_pure,
      Except.ok.injEq, eq_comm]
  have part : mapper.readingPart codec stored = mapper.reading codec stored := if_neg filled
  rw [Meaning.fieldValue, if_neg filled, lifted, pure_bind,
    SessionM.outcome_bind (SessionM.steady_attempt (steady codec)), SessionM.outcome_attempt,
    silent.reading_eq deep]
  cases read : mapper.reading codec stored with
  | ok found =>
    rw [FieldGives.part_iff (part.trans read)]
    change Except.ok found = Except.ok value ↔ _
    rw [Except.ok.injEq, eq_comm]
  | error cause =>
    rw [FieldGives.conversion_iff (part.trans read), ReadsAgain]
    change SessionM.outcome (if cause.isTypeMismatch = true then _ else _) = _ ↔ _
    by_cases other : cause.isTypeMismatch = true
    · rw [if_pos other, SessionM.outcome_bind (steady .any), silent.reading_eq deep, typed]
      simp only [SessionM.outcome_ofExcept, other, true_and]
      cases mapper.reading .any stored with
      | error cause => simp [bind, Except.bind]
      | ok raw =>
        cases converted : convert type raw <;>
          simp [bind, Except.bind, Except.mapError, converted]
    · rw [if_neg other]
      simp [other]

/-- What a field is read as, it is read as alone. -/
theorem FieldReads.alone (reads : mapper.FieldReads type stored value)
    (known : mapper.registry.codec type = .ok codec) :
    mapper.readAlone type codec stored = .ok ((Entity.empty "Alone").set "value" value) := by
  obtain ⟨reader, ran⟩ := reads (.blank "Alone")
    { Field.plain "value" type with codec := some codec } codec (.empty "Alone") _ 0 []
    (.start fun _ => ⟨0⟩) rfl known rfl (le_refl _)
  rw [List.append_nil] at ran
  exact congrArg Prod.fst ran

/-- Reading a field into an entity sets the property to what the meaning of the field ends in. -/
theorem Silent.perform_readField (silent : mapper.Silent) (model : EntityModel) (field : Field)
    (entity : Entity) (depth position : Nat) (left : List Token) (session : Session) :
    ∃ reader, perform (Decoding.readField (Decoding.readValue mapper.context depth) model field
      stored.elementType entity) ⟨⟨position, stored.tokens ++ left⟩, session⟩ =
        ((Meaning.fieldValue (Meaning.value mapper.context depth) model field stored).outcome.map
          (entity.set field.name), ⟨reader, session⟩) := by
  have steady := Meaning.fieldValue_steady
    (fun codec stored => @Silent.reading_steady mapper.context silent depth codec stored)
    model field stored
  obtain ⟨reader, ran, -⟩ := @Decoding.reads_field left stored _ _ model field entity
    (fun codec => Decoding.reads_value mapper.context depth codec stored left) position session
  rw [perform_map, SessionM.perform_steady steady] at ran
  exact ⟨reader, ran⟩

/-- A field alone is read as it gives. -/
theorem Silent.readAlone_iff (silent : mapper.Silent) :
    mapper.readAlone type codec stored = .ok ((Entity.empty "Alone").set "value" value) ↔
      mapper.FieldGives type codec stored value := by
  let field := { Field.plain "value" type with codec := some codec }
  obtain ⟨reader, ran⟩ := @Silent.perform_readField mapper stored silent (.blank "Alone") field
    (.empty "Alone") stored.tokens.length 0 [] (.start fun _ => ⟨0⟩)
  rw [List.append_nil] at ran
  have gives := @Silent.fieldValue_ok_iff mapper type codec stored value silent (.blank "Alone")
    field rfl rfl _ (le_refl _)
  have alone : mapper.readAlone type codec stored = _ := congrArg Prod.fst ran
  rw [← gives, alone]
  constructor
  · intro read
    obtain ⟨found, meant, set⟩ := ok_of_map read
    have alike := congrArg (Entity.valueOf · "value") set
    dsimp only [field, Field.plain] at alike
    rw [Entity.valueOf_set_self, Entity.valueOf_set_self] at alike
    rw [meant, alike]
  · intro read
    rw [read]
    rfl

/-- A field is read as it gives. -/
theorem Silent.fieldReads_iff (silent : mapper.Silent)
    (known : mapper.registry.codec type = .ok codec) :
    mapper.FieldReads type stored value ↔ mapper.FieldGives type codec stored value := by
  refine ⟨fun reads => silent.readAlone_iff.mp (reads.alone known), fun gives => ?_⟩
  intro model field other entity depth position left session typed coded resolved deep
  obtain rfl := Except.ok.inj (known.symm.trans coded)
  obtain ⟨reader, ran⟩ := @Silent.perform_readField mapper stored silent model field entity depth
    position left session
  rw [(silent.fieldValue_ok_iff model typed resolved deep).mpr gives] at ran
  exact ⟨reader, ran⟩

/-- What a field is read as alone, it is read as everywhere. -/
theorem Silent.fieldReads_of_alone (silent : mapper.Silent)
    (known : mapper.registry.codec type = .ok codec)
    (read : mapper.readAlone type codec stored = .ok ((Entity.empty "Alone").set "value" value)) :
    mapper.FieldReads type stored value :=
  (silent.fieldReads_iff known).mpr (silent.readAlone_iff.mp read)

end Mapper

end EntityMapping
