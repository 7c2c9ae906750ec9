import EntityMapping.Proofs.Mapper.ReadBack
import EntityMapping.Proofs.Model.Checked
/-!
# Documents that read back

Between an entity and its document the properties are matched one by one: absent ones may
be stored as nulls, empty ones may be left out, and two fields may store one property.
`Holds` is what every document written for an entity satisfies, and all that reading it
needs. The fields of the entity's model are given as written by codecs whose forms read
back, so nothing here looks into the properties.
-/

namespace EntityMapping

/-- What a document holds for a field: null where the entity has no such property, and a form
that reads back where it has. -/
def HoldsField (context : MappingContext) (properties : Keyed Value) (field : Field)
    (stored : Bson) : Prop :=
  (Keyed.get? field.name properties = none ∧ stored = .null) ∨
    ∃ value codec, Keyed.get? field.name properties = some value ∧
      field.resolved = .ok codec ∧ ReadsBack context codec value stored

/-- Every entry of a document is the discriminator, or holds a field. -/
def HoldsOnly (context : MappingContext) (model : EntityModel) (properties : Keyed Value)
    (document : Document) : Prop :=
  ∀ entry ∈ document, model.activeKey = some entry.1 ∨ ∃ field ∈ model.fields,
    field.documentName = entry.1 ∧ HoldsField context properties field entry.2

/-- A document has an entry for a field that counts. -/
def HasField (properties : Keyed Value) (field : Field) (document : Document) : Prop :=
  ∀ value, Keyed.get? field.name properties = some value → value.isEmptyCollection = false →
    field.documentName ∈ Keyed.keys document

/-- A document that was written for an entity of a model. -/
structure Holds (context : MappingContext) (model : EntityModel) (properties : Keyed Value)
    (document : Document) : Prop where
  /-- It holds nothing but the entity. -/
  only : HoldsOnly context model properties document
  /-- It holds every property that counts. -/
  all : ∀ field ∈ model.fields, HasField properties field document
  /-- It holds the discriminator, if the model uses one. -/
  marked : ∀ key, model.activeKey = some key →
    Keyed.get? key document = some (.string model.discriminator)

namespace Stored

variable {context : MappingContext} {model : EntityModel} {properties : Keyed Value}

/-- What is stored for a field reads back. -/
theorem content_holds {field : Field}
    (filled : Keyed.get? field.name properties ≠ some .null)
    (each : ∀ value codec, Keyed.get? field.name properties = some value →
      field.resolved = .ok codec →
      Ensures (Stored.value context value codec) (ReadsBack context codec value)) :
    Ensures (content model field (Keyed.get? field.name (forms context properties)))
      (HoldsField context properties field) := by
  rw [get?_forms]
  cases found : Keyed.get? field.name properties with
  | none => exact Ensures.pure (.inl ⟨found, rfl⟩)
  | some value =>
    have whole : Ensures (do
        let codec ← SessionM.ofExcept field.resolved
        tryCatch (Stored.value context value codec) fun cause =>
          throw (.encoding model.name field.name cause))
        (HoldsField context properties field) := by
      refine (SessionM.ensures_ofExcept _).bind fun codec resolved => ?_
      refine Ensures.tryCatch ?_ fun cause => Ensures.throw
      exact (each value codec found resolved).weaken fun stored reads =>
        .inr ⟨value, codec, found, resolved, reads⟩
    cases value with
    | null => exact absurd found filled
    | _ => exact whole

/-- A document keeps its entries for fields when another is stored. -/
theorem hasField_insert {field : Field} {document : Document}
    (has : HasField properties field document) (key : String) (stored : Bson) :
    HasField properties field (Keyed.insert key stored document) :=
  fun value found counts => Keyed.mem_keys_insert.mpr (.inr (has value found counts))

/-- Storing a field keeps what a document holds, adds an entry for the field if its property
counts, and leaves the discriminator alone. -/
theorem property_holds (options : Options) (checked : model.Checked) {field : Field}
    (declared : field ∈ model.fields) (filled : Keyed.get? field.name properties ≠ some .null)
    (each : ∀ value codec, Keyed.get? field.name properties = some value →
      field.resolved = .ok codec →
      Ensures (Stored.value context value codec) (ReadsBack context codec value))
    {document : Document} (only : HoldsOnly context model properties document) :
    Ensures (property options model (forms context properties) document field) fun next =>
      (HoldsOnly context model properties next ∧ ∀ key, model.activeKey = some key →
        Keyed.get? key next = Keyed.get? key document) ∧ HasField properties field next ∧
      ∀ other, HasField properties other document → HasField properties other next := by
  unfold property
  dsimp only
  split
  · refine (content_holds filled each).bind fun stored holds => ?_
    refine Ensures.pure ⟨⟨fun entry member => ?_, fun key active => ?_⟩, fun _ _ _ => ?_,
      fun other has => hasField_insert has _ _⟩
    · rcases Keyed.mem_insert member with rfl | before
      · exact .inr ⟨field, declared, rfl, holds⟩
      · exact only entry before
    · apply Keyed.get?_insert_other
      intro same
      exact checked.keyFree key active (same ▸ List.mem_map_of_mem declared)
    · exact Keyed.mem_keys_insert.mpr (.inl rfl)
  · rename_i unwritten
    refine Ensures.pure ⟨⟨only, fun _ _ => rfl⟩, fun value found counts => ?_, fun _ has => has⟩
    -- Only nulls and empty lists and maps are ever left out.
    exfalso
    apply unwritten
    have present : value.isNull = false := by
      cases value <;> first | rfl | exact absurd found filled
    simp [get?_forms, found, Field.isWritten, present, counts]

/-- Storing fields one after the other keeps what a document holds, adds an entry for each that
counts, and leaves the discriminator alone. -/
theorem fields_hold (options : Options) (checked : model.Checked)
    (filled : ∀ entry ∈ properties, entry.2 ≠ .null)
    (each : ∀ field ∈ model.fields, ∀ value codec, Keyed.get? field.name properties = some value →
      field.resolved = .ok codec →
      Ensures (Stored.value context value codec) (ReadsBack context codec value))
    {fields : List Field} (among : ∀ field ∈ fields, field ∈ model.fields) {start : Document}
    (only : HoldsOnly context model properties start) :
    Ensures (fields.foldlM (property options model (forms context properties)) start) fun last =>
      (HoldsOnly context model properties last ∧ ∀ key, model.activeKey = some key →
        Keyed.get? key last = Keyed.get? key start) ∧
      (∀ field ∈ fields, HasField properties field last) ∧
      ∀ other, HasField properties other start → HasField properties other last := by
  refine Ensures.foldlM_each ⟨only, fun _ _ => rfl⟩ fun found known field member => ?_
  have present : Keyed.get? field.name properties ≠ some .null :=
    fun null => filled _ (Keyed.mem_of_get? null) rfl
  refine (property_holds options checked (among field member) present
    (each field (among field member)) known.1).weaken fun next stepped => ?_
  obtain ⟨⟨still, same⟩, here, others⟩ := stepped
  exact ⟨⟨still, fun key active => (same key active).trans (known.2 key active)⟩, here, others⟩

/-- The discriminator is the only entry of its own. -/
theorem marked_holds {document : Document} (only : HoldsOnly context model properties document) :
    HoldsOnly context model properties (marked model document) := by
  intro entry member
  unfold marked at member
  split at member
  · rename_i key active
    rcases Keyed.mem_insert member with rfl | before
    · exact .inl active
    · exact only entry before
  · exact only entry member

/-- The discriminator leaves the entries for fields. -/
theorem hasField_marked {field : Field} {document : Document}
    (has : HasField properties field document) :
    HasField properties field (marked model document) := by
  unfold marked
  split
  · exact hasField_insert has _ _
  · exact has

/-- The document of an entity holds the entity. -/
theorem entries_holds (options : Options) (checked : model.Checked)
    (filled : ∀ entry ∈ properties, entry.2 ≠ .null)
    (each : ∀ field ∈ model.fields, ∀ value codec, Keyed.get? field.name properties = some value →
      field.resolved = .ok codec →
      Ensures (Stored.value context value codec) (ReadsBack context codec value)) :
    Ensures (entries options model (forms context properties) [])
      (Holds context model properties) := by
  have ids : ∀ field ∈ model.idField.toList, field ∈ model.fields := by
    intro field member
    exact List.mem_of_find?_eq_some (by simpa [EntityModel.idField] using member)
  have others : ∀ field ∈ model.fields.filter fun field => !field.isId, field ∈ model.fields :=
    fun field member => (List.mem_filter.mp member).1
  have nothing : HoldsOnly context model properties [] := by simp [HoldsOnly]
  refine (fields_hold options checked filled each ids nothing).bind fun first walked => ?_
  obtain ⟨⟨only, -⟩, identified, -⟩ := walked
  refine (fields_hold options checked filled each others (marked_holds only)).weaken
    fun last walked => ?_
  obtain ⟨⟨only, same⟩, named, still⟩ := walked
  refine ⟨only, fun field declared => ?_, fun key active => ?_⟩
  · by_cases identifier : field.isId = true
    · have here := identified field (checked.mem_idField declared identifier)
      exact still field (hasField_marked here)
    · exact named field (List.mem_filter.mpr ⟨declared, by simpa using identifier⟩)
  · rw [same key active, marked, active]
    exact Keyed.get?_insert_self ..

end Stored

/-- Every property found so far is like the one of its name that was stored. -/
structure Recovers (model : EntityModel) (properties : Keyed Value) (found : Entity) : Prop where
  /-- The kind is that of the model. -/
  kind : found.kind = model.name
  /-- No property is there twice. -/
  apart : Keyed.Distinct found.properties
  /-- The properties are like those stored. -/
  alike : ∀ name back, found.get? name = some back → ∃ value,
    Keyed.get? name properties = some value ∧ back.Alike value

/-- A property that was stored was found. -/
def Recovered (properties : Keyed Value) (name : String) (found : Entity) : Prop :=
  (Keyed.get? name properties).isSome = true → (found.get? name).isSome = true

/-- What a field was read as: null where its property is absent, else a like value. -/
def ReadAs (properties : Keyed Value) (field : Field) (back : Value) : Prop :=
  (Keyed.get? field.name properties = none ∧ back = .null) ∨
    ∃ value, Keyed.get? field.name properties = some value ∧ value ≠ .null ∧ back.Alike value

namespace ReadAs

variable {model : EntityModel} {properties : Keyed Value} {field : Field} {back : Value}
  {found : Entity}

/-- What is set for a field is like its property. -/
theorem recovers (read : ReadAs properties field back)
    (known : Recovers model properties found) :
    Recovers model properties (found.set field.name back) := by
  refine ⟨by rw [Entity.set_kind, known.kind], Entity.distinct_set known.apart _ _,
    fun name other stored => ?_⟩
  by_cases same : name = field.name
  · subst same
    rw [Entity.get?_set_self] at stored
    rcases read with ⟨-, rfl⟩ | ⟨value, given, -, alike⟩
    · simp [Value.isNull] at stored
    · split at stored
      · cases stored
      · obtain rfl := Option.some.inj stored
        exact ⟨value, given, alike⟩
  · rw [Entity.get?_set_other same] at stored
    exact known.alike name other stored

/-- What is set for a field recovers its property. -/
theorem recovered (read : ReadAs properties field back) :
    Recovered properties field.name (found.set field.name back) := by
  intro given
  rw [Entity.get?_set_self]
  rcases read with ⟨absent, -⟩ | ⟨value, -, filled, alike⟩
  · simp [absent] at given
  · cases back with
    | null =>
      refine absurd ?_ filled
      have equal := alike.1
      cases value <;> simp [Value.same] at equal ⊢
    | _ => rfl

/-- What was recovered is not lost when a field is set. -/
theorem recovered_still (read : ReadAs properties field back) {name : String}
    (before : Recovered properties name found) :
    Recovered properties name (found.set field.name back) := by
  by_cases same : name = field.name
  · subst same
    exact read.recovered
  · intro given
    rw [Entity.get?_set_other same]
    exact before given

end ReadAs

namespace Meaning

variable {context : MappingContext} {model : EntityModel} {properties : Keyed Value}

/-- A stored field is read as a value like the property, or as null where there is none. -/
theorem fieldValue_back (filled : ∀ entry ∈ properties, entry.2 ≠ .null) {field : Field}
    {stored : Bson} {depth : Nat} (holds : HoldsField context properties field stored)
    (enough : stored.tokens.length ≤ depth) :
    ∃ back, Yields (fieldValue (value context depth) model field stored) back ∧
      ReadAs properties field back := by
  rcases holds with ⟨absent, rfl⟩ | ⟨value, codec, found, resolved, present, reads⟩
  · exact ⟨.null, Yields.pure Value.null, .inl ⟨absent, rfl⟩⟩
  · obtain ⟨back, known, alike⟩ := reads depth enough
    refine ⟨back, ?_, .inr ⟨value, found, filled _ (Keyed.mem_of_get? found), alike⟩⟩
    rw [fieldValue, if_neg present, resolved]
    exact (Yields.pure codec).bind ((SessionM.yields_attempt known).bind (Yields.pure back))

/-- Reading an entry keeps what was recovered and recovers the property of the entry. -/
theorem property_back (checked : model.Checked) (filled : ∀ entry ∈ properties, entry.2 ≠ .null)
    {document : Document} (holds : HoldsOnly context model properties document) {depth : Nat}
    {entry : String × Bson} (member : entry ∈ document)
    (enough : entry.2.tokens.length ≤ depth) (found : Entity) :
    ∃ next, Yields (property (value context depth) model found entry) next ∧
      (Recovers model properties found → Recovers model properties next) ∧
      (∀ field, model.fieldStoredAs entry.1 = some field → Recovered properties field.name next) ∧
      ∀ name, Recovered properties name found → Recovered properties name next := by
  by_cases active : model.activeKey = some entry.1
  · refine ⟨found, ?_, id, fun field stored => ?_, fun _ => id⟩
    · rw [property, if_pos active]
      exact Yields.pure found
    · obtain ⟨declared, named⟩ := EntityModel.fieldStoredAs_some stored
      exact absurd (List.mem_map.mpr ⟨field, declared, named⟩) (checked.keyFree _ active)
  · obtain ⟨field, declared, named, here⟩ := (holds entry member).resolve_left active
    have stored : model.fieldStoredAs entry.1 = some field :=
      named ▸ checked.fieldStoredAs_of_mem declared
    obtain ⟨back, known, read⟩ := @fieldValue_back _ model _ filled _ _ _ here enough
    refine ⟨found.set field.name back, ?_, read.recovers, fun other same => ?_,
      fun _ => read.recovered_still⟩
    · rw [property, if_neg active, stored]
      exact known.map (found.set field.name)
    · obtain rfl := Option.some.inj (stored.symm.trans same)
      exact read.recovered

/-- A document that holds an entity is read as an alike one. -/
theorem properties_back (checked : model.Checked) (apart : Keyed.Distinct properties)
    (filled : ∀ entry ∈ properties, entry.2 ≠ .null)
    (declared : ∀ entry ∈ properties, entry.1 ∈ model.fields.map Field.name)
    {document : Document} (holds : Holds context model properties document) {depth : Nat}
    (enough : ∀ entry ∈ document, entry.2.tokens.length ≤ depth) :
    ∃ back, Yields (Meaning.properties (value context depth) model document) back ∧
      (Value.ofEntity back).Alike (.entity model.name properties) := by
  have step := fun found entry (member : entry ∈ document) =>
    property_back checked filled holds.only member (enough entry member) found
  obtain ⟨back, known⟩ : ∃ back, Yields (Meaning.properties (value context depth) model document)
      back := by
    refine Yields.foldlM (fun found entry member => ?_) (Entity.empty model.name)
    obtain ⟨next, yields, -⟩ := step found entry member
    exact ⟨next, yields⟩
  have begins : Recovers model properties (Entity.empty model.name) :=
    ⟨rfl, List.nodup_nil, by simp [Entity.empty, Entity.get?]⟩
  have always : Ensures (Meaning.properties (value context depth) model document) fun last =>
      Recovers model properties last ∧
      ∀ entry ∈ document, ∀ field, model.fieldStoredAs entry.1 = some field →
        Recovered properties field.name last := by
    have walked := @Ensures.foldlM_each _ _ _ _ (property (value context depth) model) document
      (Recovers model properties) (fun entry found => ∀ field,
        model.fieldStoredAs entry.1 = some field → Recovered properties field.name found) _ begins
      fun found recovers entry member => by
        obtain ⟨next, yields, keeps, here, still⟩ := step found entry member
        exact yields.ensures ⟨keeps recovers, here, fun other before field stored =>
          still field.name (before field stored)⟩
    exact walked.weaken fun last whole => ⟨whole.1, whole.2.1⟩
  obtain ⟨recovers, each⟩ := known.holds always (.start fun _ => ⟨0⟩)
  obtain ⟨kind, found⟩ := back
  obtain rfl : kind = model.name := recovers.kind
  refine ⟨_, known, Value.Alike.entity model.name recovers.apart apart ?_ ?_⟩
  · intro name value stored _
    exact recovers.alike name value stored
  · intro name value stored counts
    obtain ⟨field, belongs, rfl⟩ := List.mem_map.mp (declared _ (Keyed.mem_of_get? stored))
    have entry := holds.all field belongs value stored counts
    obtain ⟨⟨key, form⟩, member, same⟩ := List.mem_map.mp entry
    have reached := each _ member field (same ▸ checked.fieldStoredAs_of_mem belongs)
      (by rw [stored]; rfl)
    obtain ⟨other, located⟩ := Option.isSome_iff_exists.mp reached
    obtain ⟨origin, given, alike⟩ := recovers.alike _ other located
    obtain rfl := Option.some.inj (stored.symm.trans given)
    exact ⟨other, located, alike.symm⟩

end Meaning

end EntityMapping
