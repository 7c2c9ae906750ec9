import EntityMapping.Proofs.Decoding.Fields
import EntityMapping.Proofs.Encoding.Success
/-!
# What the entries of a document give

Without hooks an entity is read entry by entry, and what one entry gives does not depend
on the others: a field gives its property, and anything else gives nothing. The
properties of the entity are those that the entries give, one after the other, so that
they depend on the order of the entries in their own order only.
-/

namespace EntityMapping

/-- Entries with different names belong to fields of different properties. -/
theorem EntityModel.name_ne_of_fieldStoredAs {model : EntityModel}
    (apart : (model.fields.map Field.name).Nodup) {one other : String} (different : one ≠ other)
    {field last : Field} (first : model.fieldStoredAs one = some field)
    (second : model.fieldStoredAs other = some last) : field.name ≠ last.name := by
  intro same
  obtain ⟨declared, stored⟩ := fieldStoredAs_some first
  obtain ⟨known, kept⟩ := fieldStoredAs_some second
  obtain rfl := List.inj_on_of_nodup_map apart declared known same
  exact different (stored.symm.trans kept)

namespace Mapper

/-- What an entry of a document gives an entity of a model. -/
inductive EntryGives (mapper : Mapper) (model : EntityModel) (entry : String × Bson) :
    List (String × Value) → Prop where
  /-- An entry that belongs to no field gives nothing, and so does the discriminator. -/
  | foreign (unknown : model.fieldStoredAs entry.1 = none) : EntryGives mapper model entry []
  /-- The entry of a field gives its property. -/
  | field {field : Field} {codec : Codec} {value : Value}
    (known : model.fieldStoredAs entry.1 = some field) (coded : field.codec = some codec)
    (gives : mapper.FieldGives field.type codec entry.2 value) :
    EntryGives mapper model entry (value.asProperty field.name)

/-- What the entries of a document give an entity of a model, one after the other. -/
inductive Gives (mapper : Mapper) (model : EntityModel) : Document → List (String × Value) → Prop
  /-- No entries give nothing. -/
  | nil : Gives mapper model [] []
  /-- An entry, and those after it. -/
  | cons {entry : String × Bson} {rest : Document} {first later : List (String × Value)}
    (gives : mapper.EntryGives model entry first) (others : Gives mapper model rest later) :
    Gives mapper model (entry :: rest) (first ++ later)

variable {mapper : Mapper} {model : EntityModel} {entry : String × Bson}
  {given : List (String × Value)}

namespace EntryGives

/-- An entry that belongs to no field gives nothing else. -/
theorem foreign_iff (unknown : model.fieldStoredAs entry.1 = none) :
    mapper.EntryGives model entry given ↔ given = [] := by
  constructor
  · intro gives
    cases gives with
    | foreign => rfl
    | field known => cases unknown.symm.trans known
  · rintro rfl
    exact .foreign unknown

/-- The entry of a field gives what the field gives. -/
theorem field_iff {field : Field} {codec : Codec}
    (known : model.fieldStoredAs entry.1 = some field) (coded : field.codec = some codec) :
    mapper.EntryGives model entry given ↔ ∃ value,
      mapper.FieldGives field.type codec entry.2 value ∧ given = value.asProperty field.name := by
  constructor
  · intro gives
    cases gives with
    | foreign unknown => cases unknown.symm.trans known
    | field here assigned gives =>
      obtain rfl := Option.some.inj (here.symm.trans known)
      obtain rfl := Option.some.inj (assigned.symm.trans coded)
      exact ⟨_, gives, rfl⟩
  · rintro ⟨value, gives, rfl⟩
    exact .field known coded gives

/-- An entry gives properties of the field that it belongs to. -/
theorem named (gives : mapper.EntryGives model entry given) {name : String}
    (member : name ∈ Keyed.keys given) :
    ∃ field, model.fieldStoredAs entry.1 = some field ∧ field.name = name := by
  cases gives with
  | foreign => cases member
  | @field field codec value known =>
    refine ⟨field, known, ?_⟩
    unfold Value.asProperty at member
    split at member
    · cases member
    · exact (List.mem_singleton.mp member).symm

end EntryGives

/-- The step of an entry ends as the entry gives, where the properties of its field are new. -/
theorem Silent.property_ok_iff (silent : mapper.Silent) (checked : model.Checked)
    (coded : ∀ field ∈ model.fields, ∃ codec, field.codec = some codec) {entity after : Entity}
    (fresh : ∀ field, model.fieldStoredAs entry.1 = some field →
      field.name ∉ Keyed.keys entity.properties) {depth : Nat}
    (deep : entry.2.tokens.length ≤ depth) :
    (Meaning.property (Meaning.value mapper.context depth) model entity entry).outcome =
        .ok after ↔
      ∃ given, mapper.EntryGives model entry given ∧
        after = ⟨entity.kind, entity.properties ++ given⟩ := by
  have foreign (unknown : model.fieldStoredAs entry.1 = none) :
      (pure entity : SessionM Entity).outcome = .ok after ↔
        ∃ given, mapper.EntryGives model entry given ∧
          after = ⟨entity.kind, entity.properties ++ given⟩ := by
    simp only [EntryGives.foreign_iff unknown, exists_eq_left, List.append_nil,
      SessionM.outcome_pure, Except.ok.injEq]
    exact eq_comm
  unfold Meaning.property
  split
  · rename_i active
    refine foreign (List.find?_eq_none.mpr fun field known same => ?_)
    refine checked.keyFree entry.1 active (List.mem_map.mpr ⟨field, known, ?_⟩)
    simpa using same
  · split
    · rename_i field known
      obtain ⟨codec, assigned⟩ := coded field (EntityModel.fieldStoredAs_some known).1
      have gives (value : Value) := @Silent.fieldValue_ok_iff mapper field.type codec entry.2 value
        silent model field rfl assigned depth deep
      simp only [EntryGives.field_iff known assigned, ← gives, SessionM.outcome_map]
      cases (Meaning.fieldValue (Meaning.value mapper.context depth) model field
        entry.2).outcome with
      | error cause => simp [Except.map]
      | ok value =>
        simp only [Except.map, Entity.set_fresh (fresh field known), Except.ok.injEq]
        simp [eq_comm]
    · rename_i unknown
      exact foreign unknown

/-- The walk over entries with distinct names ends as the entries give. -/
theorem Silent.walk_ok_iff (silent : mapper.Silent) (checked : model.Checked)
    (coded : ∀ field ∈ model.fields, ∃ codec, field.codec = some codec)
    (named : (model.fields.map Field.name).Nodup) {depth : Nat} {document : Document}
    (deep : ∀ entry ∈ document, entry.2.tokens.length ≤ depth) (apart : Keyed.Distinct document)
    {entity after : Entity}
    (fresh : ∀ entry ∈ document, ∀ field, model.fieldStoredAs entry.1 = some field →
      field.name ∉ Keyed.keys entity.properties) :
    (document.foldlM (Meaning.property (Meaning.value mapper.context depth) model)
        entity).outcome = .ok after ↔
      ∃ given, mapper.Gives model document given ∧
        after = ⟨entity.kind, entity.properties ++ given⟩ := by
  induction document generalizing entity with
  | nil =>
    constructor
    · rintro ⟨⟩
      exact ⟨[], .nil, by rw [List.append_nil]⟩
    · rintro ⟨given, gives, rfl⟩
      cases gives
      rw [List.append_nil]
      rfl
  | cons entry rest ih =>
    obtain ⟨here, later⟩ := List.forall_mem_cons.mp deep
    obtain ⟨unseen, others⟩ := Keyed.distinct_cons.mp apart
    obtain ⟨first, afterwards⟩ := List.forall_mem_cons.mp fresh
    have step (next : Entity) := @Silent.property_ok_iff mapper model entry silent checked coded
      entity next first depth here
    have steady := Meaning.property_steady (fun codec stored =>
      @Silent.reading_steady mapper.context silent depth codec stored) model entity entry
    -- What this entry gives is of its own field, so the fields of the others are still new.
    have still (given : List (String × Value)) (gives : mapper.EntryGives model entry given) :
        ∀ other ∈ rest, ∀ field, model.fieldStoredAs other.1 = some field →
          field.name ∉ Keyed.keys (entity.properties ++ given) := by
      intro other member field known among
      rw [Keyed.keys, List.map_append] at among
      rcases List.mem_append.mp among with before | here
      · exact afterwards other member field known before
      · obtain ⟨last, belongs, same⟩ := gives.named here
        have different : entry.1 ≠ other.1 := fun same =>
          unseen (same ▸ List.mem_map_of_mem member)
        exact EntityModel.name_ne_of_fieldStoredAs named different belongs known same
    rw [List.foldlM_cons, SessionM.outcome_bind steady]
    constructor
    · intro done
      obtain ⟨next, begun, ended⟩ := ok_of_bind done
      obtain ⟨given, gives, rfl⟩ := (step next).mp begun
      obtain ⟨more, follows, rfl⟩ := (ih later others (still given gives)).mp ended
      exact ⟨given ++ more, .cons gives follows, by rw [List.append_assoc]⟩
    · rintro ⟨given, gives, rfl⟩
      obtain _ | @⟨_, _, first, more, gives, follows⟩ := gives
      rw [(step _).mpr ⟨first, gives, rfl⟩]
      refine (ih later others (still first gives)).mpr ⟨more, follows, ?_⟩
      rw [List.append_assoc]

namespace Gives

variable {document moved added : Document}

/-- What is given is given by some entry of a field. -/
theorem of_mem (gives : mapper.Gives model document given) {property : String × Value}
    (member : property ∈ given) : ∃ entry ∈ document, ∃ field codec,
      model.fieldStoredAs entry.1 = some field ∧ property.1 = field.name ∧
        mapper.FieldGives field.type codec entry.2 property.2 := by
  induction gives with
  | nil => cases member
  | @cons entry rest first later gives _ ih =>
    rcases List.mem_append.mp member with here | there
    · cases gives with
      | foreign => cases here
      | @field field codec value known _ gives =>
        unfold Value.asProperty at here
        split at here
        · cases here
        · obtain rfl := List.mem_singleton.mp here
          exact ⟨entry, List.mem_cons_self, field, codec, known, rfl, gives⟩
    · obtain ⟨other, among, found⟩ := ih there
      exact ⟨other, List.mem_cons_of_mem _ among, found⟩

/-- Entries with distinct names give distinct properties. -/
theorem distinct (named : (model.fields.map Field.name).Nodup) (apart : Keyed.Distinct document)
    (gives : mapper.Gives model document given) : Keyed.Distinct given := by
  induction gives with
  | nil => exact List.nodup_nil
  | @cons entry rest first later gives others ih =>
    obtain ⟨unseen, distinct⟩ := Keyed.distinct_cons.mp apart
    rw [Keyed.Distinct, Keyed.keys, List.map_append, List.nodup_append']
    refine ⟨?_, ih distinct, fun name here there => ?_⟩
    · cases gives with
      | foreign => exact List.nodup_nil
      | field =>
        unfold Value.asProperty
        split
        · exact List.nodup_nil
        · exact List.nodup_singleton _
    · obtain ⟨field, known, rfl⟩ := gives.named here
      obtain ⟨property, member, same⟩ := List.mem_map.mp there
      obtain ⟨other, among, last, codec, belongs, owned, -⟩ := others.of_mem member
      have different : entry.1 ≠ other.1 := fun same =>
        unseen (same ▸ List.mem_map_of_mem among)
      exact EntityModel.name_ne_of_fieldStoredAs named different known belongs
        (same.symm.trans owned)

/-- Entries in another order give the same in another order. -/
theorem perm (gives : mapper.Gives model document given) (rearranged : document.Perm moved) :
    ∃ other, mapper.Gives model moved other ∧ other.Perm given := by
  induction rearranged generalizing given with
  | nil => exact ⟨given, gives, .refl _⟩
  | cons entry _ ih =>
    obtain _ | ⟨first, others⟩ := gives
    obtain ⟨other, again, same⟩ := ih others
    exact ⟨_, .cons first again, same.append_left _⟩
  | swap one other rest =>
    obtain _ | ⟨first, others⟩ := gives
    obtain _ | ⟨second, others⟩ := others
    exact ⟨_, .cons second (.cons first others), List.perm_append_comm_assoc _ _ _⟩
  | trans _ _ first second =>
    obtain ⟨middle, between, same⟩ := first gives
    obtain ⟨other, again, still⟩ := second between
    exact ⟨other, again, still.trans same⟩

/-- No entries give just nothing. -/
theorem nil_iff : mapper.Gives model [] given ↔ given = [] := by
  constructor
  · rintro ⟨⟩
    rfl
  · rintro rfl
    exact .nil

/-- An entry and those after it give what they give, one after the other. -/
theorem cons_iff : mapper.Gives model (entry :: document) given ↔ ∃ first later,
    mapper.EntryGives model entry first ∧ mapper.Gives model document later ∧
      given = first ++ later := by
  constructor
  · intro gives
    obtain _ | ⟨first, others⟩ := gives
    exact ⟨_, _, first, others, rfl⟩
  · rintro ⟨first, later, gives, others, rfl⟩
    exact .cons gives others

/-- Entries that belong to no field give just nothing. -/
theorem foreign_iff (foreign : ∀ entry ∈ added, model.fieldStoredAs entry.1 = none) :
    mapper.Gives model added given ↔ given = [] := by
  induction added generalizing given with
  | nil => exact nil_iff
  | cons entry rest ih =>
    obtain ⟨first, others⟩ := List.forall_mem_cons.mp foreign
    simp only [cons_iff, EntryGives.foreign_iff first, ih others]
    simp

/-- Entries that belong to no field may be left out. -/
theorem append_foreign (foreign : ∀ entry ∈ added, model.fieldStoredAs entry.1 = none) :
    mapper.Gives model (document ++ added) given ↔ mapper.Gives model document given := by
  induction document generalizing given with
  | nil => rw [List.nil_append, foreign_iff foreign, nil_iff]
  | cons entry rest ih => simp only [List.cons_append, cons_iff, ih]

end Gives

/-- An entity is read where a model is chosen for its document, and holds what the entries give. -/
theorem Silent.entity_ok_iff (sound : mapper.Sound) (silent : mapper.Silent)
    (named : mapper.PropertiesApart) {declared : EntityModel}
    (registered : declared ∈ mapper.models) {document : Document}
    (apart : Keyed.Distinct document) {depth : Nat}
    (deep : ∀ entry ∈ document, entry.2.tokens.length ≤ depth) {entity : Entity} :
    (Meaning.entity mapper.context (Meaning.value mapper.context depth) declared false
        document).outcome = .ok entity ↔
      ∃ model ∈ mapper.models, Decoding.modelOfDocument mapper declared document = .ok model ∧
        entity.kind = model.name ∧ mapper.Gives model document entity.properties := by
  have whole := @Silent.entity mapper.context declared silent registered
    (Meaning.value mapper.context depth) document
  rw [whole, SessionM.outcome_bind (SessionM.steady_ofExcept _), SessionM.outcome_ofExcept,
    context_mapper]
  cases chosen : Decoding.modelOfDocument mapper declared document with
  | error cause => simp [bind, Except.bind]
  | ok model =>
    have known := Meaning.registered_of_chosen registered chosen
    have coded : ∀ field ∈ model.fields, ∃ codec, field.codec = some codec := by
      intro field member
      obtain ⟨codec, assigned, -⟩ := sound.resolved model known field member
      exact ⟨codec, assigned⟩
    have walk := @Silent.walk_ok_iff mapper model silent (sound.checked model known) coded
      (named model known) depth document deep apart (.empty model.name) entity
      (fun _ _ _ _ => by simp [Entity.empty, Keyed.keys])
    change (Meaning.properties _ model document).outcome = _ ↔ _
    rw [Meaning.properties, walk]
    constructor
    · rintro ⟨given, gives, rfl⟩
      exact ⟨model, known, rfl, rfl, gives⟩
    · rintro ⟨other, -, same, kind, gives⟩
      obtain rfl := Except.ok.inj same
      exact ⟨entity.properties, gives, congrArg (Entity.mk · _) kind⟩

/-- A document is read as an entity of a declared kind where a model is chosen for it, and holds
what the entries give. -/
theorem Silent.reading_entity_iff (sound : mapper.Sound) (silent : mapper.Silent)
    (named : mapper.PropertiesApart) {name : String} {document : Document}
    (apart : Keyed.Distinct document) {value : Value} :
    mapper.reading (.entity name) (.document document) = .ok value ↔
      ∃ declared, mapper.model? name = some declared ∧ ∃ model ∈ mapper.models,
        Decoding.modelOfDocument mapper declared document = .ok model ∧
          ∃ given, value = .entity model.name given ∧ mapper.Gives model document given := by
  rw [← silent.reading_eq (Nat.le_succ _), Meaning.value, Meaning.embedded,
    SessionM.outcome_bind (SessionM.steady_ofExcept _), SessionM.outcome_ofExcept, context_mapper]
  cases located : mapper.model? name with
  | none =>
    rw [Mapper.model, located]
    simp [bind, Except.bind]
  | some declared =>
    have reads (entity : Entity) := @Silent.entity_ok_iff mapper sound silent named declared
      (model?_some located).1 document apart _
      (fun entry member => (Bson.tokens_length_entry member).le) entity
    rw [model_ok.mpr located]
    change (Value.ofEntity <$> Meaning.entity _ _ _ _ _ : SessionM Value).outcome = _ ↔ _
    rw [SessionM.outcome_map]
    constructor
    · intro read
      obtain ⟨entity, meant, rfl⟩ := ok_of_map read
      obtain ⟨model, known, chosen, kind, gives⟩ := (reads entity).mp meant
      exact ⟨declared, rfl, model, known, chosen, _, by rw [Value.ofEntity, kind], gives⟩
    · rintro ⟨other, same, model, known, chosen, given, rfl, gives⟩
      obtain rfl := Option.some.inj same
      rw [(reads ⟨model.name, given⟩).mpr ⟨model, known, chosen, rfl, gives⟩]
      rfl

/-- A document is decoded where a model is chosen for it, and the entity holds what the entries
give. -/
theorem Silent.fromDocument_ok_iff (sound : mapper.Sound) (silent : mapper.Silent)
    (named : mapper.PropertiesApart) {kind : String} {declared : EntityModel}
    (found : mapper.model? kind = some declared) {document : Document}
    (apart : Keyed.Distinct document) {entity : Entity} (session : Session) :
    (mapper.fromDocument kind document session).1 = .ok entity ↔
      ∃ model ∈ mapper.models, Decoding.modelOfDocument mapper declared document = .ok model ∧
        entity.kind = model.name ∧ mapper.Gives model document entity.properties := by
  have registered := (model?_some found).1
  have located : SessionM.ofExcept (mapper.model kind) = pure declared := by
    rw [model_ok.mpr found]
    rfl
  have deep : ∀ entry ∈ document, entry.2.tokens.length ≤
      Decoding.depthFor (Reader.ofDocument document) := fun entry member =>
    (Bson.tokens_length_entry member).le.trans (Nat.le_add_right _ _)
  rw [fromDocument_eq, located, pure_bind,
    ← silent.entity_ok_iff sound named registered apart deep]
  have steady := @Silent.reading_entity_steady mapper.context silent
    (Meaning.value mapper.context (Decoding.depthFor (Reader.ofDocument document)))
    (fun codec stored => @Silent.reading_steady mapper.context silent _ codec stored) declared
    registered document
  rw [SessionM.perform_steady steady]

end Mapper

end EntityMapping
