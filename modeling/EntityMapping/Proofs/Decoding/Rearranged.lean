import EntityMapping.Decidable
import EntityMapping.Model.Declaration
import EntityMapping.Proofs.Decoding.Entries
import EntityMapping.Proofs.Mapper.Keys
import EntityMapping.Proofs.Keyed.Settling
import EntityMapping.Proofs.Value.Equivalence
/-!
# Documents in another order

An entity is read alike from a document whose entries stand in another order, with entries
in between that belong to no field. Its properties come in another order, which equality
looks past. What stands in the way of equality is NaN alone, and a document without NaN
gives none, unless a text is read as one.
-/

namespace EntityMapping

/-! ## Equality in another order -/

namespace Value

variable {kind : String} {left right : List (String × Value)}

/-- An entity equals one with its properties in another order as far as it equals itself. -/
theorem same_perm (apart : Keyed.Distinct left) (same : left.Perm right) :
    (Value.entity kind left).same (.entity kind right) =
        (Value.entity kind left).same (.entity kind left) ∧
      (Value.entity kind right).same (.entity kind left) =
        (Value.entity kind left).same (.entity kind left) := by
  have other : Keyed.Distinct right := (same.map Prod.fst).nodup_iff.mp apart
  obtain ⟨back, forth⟩ :=
    same_rearranged other apart (same.symm.filter _) (Value.entity kind left)
  exact ⟨forth, back⟩

end Value

/-! ## Documents without NaN -/

/-- A stored value whose documents keep names apart, without NaN and without a text that is read
as NaN. -/
structure Bson.Clear (stored : Bson) : Prop where
  /-- Names are kept apart. -/
  apart : stored.Apart
  /-- No number is NaN. -/
  free : stored.Each Bson.notNaN
  /-- No text is read as NaN. -/
  spelled : stored.Each Bson.spellsNoNaN

namespace Bson

/-- Where a value keeps names apart in all its parts, it does so where it is looked at. -/
theorem Apart.distinct {stored : Bson} (apart : stored.Apart) : stored.Distinct := by
  induction stored using Bson.parts_induction with
  | single value simple =>
    cases value with
    | array | document => cases simple
    | _ => trivial
  | array items ih =>
    exact itemsDistinct_iff.mpr fun item member => ih item member (apart_array.mp apart item member)
  | document entries ih =>
    obtain ⟨own, inside⟩ := each_document.mp apart
    exact ⟨own, entriesDistinct_iff.mpr fun entry member => ih entry member (inside entry member)⟩
  | scopedCode => trivial

/-- The items of a clear array are clear. -/
theorem Clear.item {items : List Bson} (clear : (Bson.array items).Clear) {item : Bson}
    (member : item ∈ items) : item.Clear :=
  ⟨apart_array.mp clear.apart item member, (each_array.mp clear.free).2 item member,
    (each_array.mp clear.spelled).2 item member⟩

/-- The values of a clear document are clear. -/
theorem Clear.entry {entries : Document} (clear : (Bson.document entries).Clear)
    {entry : String × Bson} (member : entry ∈ entries) : entry.2.Clear :=
  ⟨(each_document.mp clear.apart).2 entry member, (each_document.mp clear.free).2 entry member,
    (each_document.mp clear.spelled).2 entry member⟩

end Bson

namespace Mapper

variable {mapper : Mapper} {stored : Bson}

/-- What a part is read as is definite where what it is read as by itself is. -/
theorem definite_part (each : ∀ codec value, mapper.reading codec stored = .ok value →
    value.Definite) {codec : Codec} {value : Value}
    (read : mapper.readingPart codec stored = .ok value) : value.Definite := by
  unfold readingPart at read
  split at read
  · obtain rfl := Except.ok.inj read
    exact .single rfl (by simp [Value.Alike, Value.same]) fun _ known => by cases known
  · exact each codec value read

/-- What a field gives equals itself where what the stored value is read as is definite. -/
theorem FieldGives.alike (each : ∀ codec value, mapper.reading codec stored = .ok value →
    value.Definite) {type : FieldType} {codec : Codec} {value : Value}
    (gives : mapper.FieldGives type codec stored value) : value.Alike value := by
  cases gives with
  | part read => exact (definite_part each read).alike
  | conversion _ _ again converted => exact (each .any _ again).convert converted

/-- What entries give equals itself where what their values are read as is definite. -/
theorem Gives.alike {model : EntityModel} {document : Document} {given : List (String × Value)}
    (gives : mapper.Gives model document given)
    (each : ∀ entry ∈ document, ∀ codec value, mapper.reading codec entry.2 = .ok value →
      value.Definite) : ∀ property ∈ given, property.2.Alike property.2 := by
  intro property member
  obtain ⟨entry, among, field, codec, -, -, gives⟩ := gives.of_mem member
  exact gives.alike (each entry among)

/-- What is read from a clear value is definite. -/
theorem Silent.reading_definite (sound : mapper.Sound) (silent : mapper.Silent)
    (named : mapper.PropertiesApart) (clear : stored.Clear) :
    ∀ codec value, mapper.reading codec stored = .ok value → value.Definite := by
  induction size : stored.tokens.length using Nat.strong_induction_on generalizing stored with
  | _ size ih =>
  subst size
  have entity (name : String) {document : Document} (is : stored = .document document)
      (value : Value) (read : mapper.reading (.entity name) stored = .ok value) :
      value.Definite := by
    subst is
    have own := (Bson.each_document.mp clear.apart).1
    obtain ⟨declared, -, model, known, -, given, rfl, gives⟩ :=
      (silent.reading_entity_iff sound named own).mp read
    refine .entity (gives.distinct (named model known) own) (gives.alike fun entry member => ?_)
    exact ih _ (Bson.tokens_length_entry member) (clear.entry member) rfl
  intro codec value read
  cases codec with
  | scalar type =>
    rw [silent.reading_scalar] at read
    split at read
    · obtain rfl := Except.ok.inj read
      exact .ofBson clear.apart clear.free clear.spelled
    · cases read
  | list element =>
    obtain ⟨items, values, rfl, rfl, each⟩ := silent.reading_list_ok read
    refine .array fun value member => ?_
    obtain ⟨item, among, -, read⟩ := exists_of_mem_left (forall₂_mem each).flip value member
    exact definite_part (ih _ (Bson.tokens_length_item among) (clear.item among) rfl) read
  | map element =>
    obtain ⟨document, values, rfl, rfl, each⟩ :=
      silent.reading_map_ok clear.apart.distinct read
    refine .map ?_ fun entry member => ?_
    · have names := @Value.keys_of_forall₂ _ _ (fun stored value =>
        mapper.readingPart element stored = .ok value) _ _ each
      rw [Keyed.Distinct, ← names]
      exact clear.apart.distinct.1
    · obtain ⟨stored, among, -, -, read⟩ := exists_of_mem_left (forall₂_mem each).flip entry member
      exact definite_part (ih _ (Bson.tokens_length_entry among) (clear.entry among) rfl) read
  | entity name =>
    obtain ⟨document, -, -, -, is, -⟩ := silent.reading_entity_ok clear.apart.distinct read
    exact entity name is value read
  | any =>
    have plain : (Value.ofBson stored).Definite := .ofBson clear.apart clear.free clear.spelled
    cases stored with
    | array items =>
      rw [silent.reading_any_array] at read
      obtain ⟨values, walked, rfl⟩ := ok_of_map read
      refine .array fun value member => ?_
      obtain ⟨item, among, -, read⟩ :=
        exists_of_mem_left (forall₂_mem (mapM_eq_ok.mp walked)).flip value member
      exact ih _ (Bson.tokens_length_item among) (clear.item among) rfl .any value read
    | document document =>
      rw [silent.reading_any_document clear.apart.distinct] at read
      split at read
      · exact entity _ rfl value read
      · obtain rfl := Except.ok.inj read
        exact plain
    | _ =>
      rw [silent.reading_any_single (fun _ => by simp) fun _ => by simp] at read
      obtain rfl := Except.ok.inj read
      exact plain

/-! ## Entities from documents in another order -/

/-- A document has the entries of another one in some order, and perhaps others whose names are
neither keys of discriminators nor names in documents of the model chosen for the other one. -/
def Rearranges (mapper : Mapper) (declared : EntityModel) (document moved : Document) : Prop :=
  ∃ added, moved.Perm (document ++ added) ∧ ∀ entry ∈ added,
    entry.1 ∉ mapper.discriminatorKeys ∧
      ∀ model, Decoding.modelOfDocument mapper declared document = .ok model →
        entry.1 ∉ model.fields.map Field.documentName

variable {declared : EntityModel} {document moved : Document}

/-- A document keeps names apart where it does in another order. -/
theorem Rearranges.apart (rearranges : mapper.Rearranges declared document moved)
    (apart : (Bson.document moved).Apart) : (Bson.document document).Apart := by
  obtain ⟨added, same, -⟩ := rearranges
  obtain ⟨own, inside⟩ := Bson.each_document.mp apart
  have names : (Keyed.keys moved).Perm (Keyed.keys document ++ Keyed.keys added) := by
    simpa [Keyed.keys] using same.map Prod.fst
  refine Bson.each_document.mpr ⟨(names.nodup_iff.mp own).of_append_left, fun entry member => ?_⟩
  exact inside entry (same.mem_iff.mpr (List.mem_append_left _ member))

/-- The same model is chosen for a document in another order. -/
theorem Rearranges.modelOfDocument (knows : mapper.KnowsKeys)
    (registered : declared ∈ mapper.models) (apart : Keyed.Distinct moved)
    (rearranges : mapper.Rearranges declared document moved) :
    Decoding.modelOfDocument mapper declared moved =
      Decoding.modelOfDocument mapper declared document := by
  obtain ⟨added, same, foreign⟩ := rearranges
  unfold Decoding.modelOfDocument
  cases active : declared.activeKey with
  | none => rfl
  | some key =>
    have missing : key ∉ Keyed.keys added := by
      intro member
      obtain ⟨entry, among, rfl⟩ := List.mem_map.mp member
      exact (foreign entry among).1 (knows.listed declared registered _ active)
    dsimp only
    rw [Keyed.get?_perm apart same, Keyed.get?_append, Keyed.get?_eq_none missing, Option.or_none]

/-- The entries of a document in another order give the same in another order. -/
theorem Rearranges.gives {model : EntityModel}
    (chosen : Decoding.modelOfDocument mapper declared document = .ok model)
    (rearranges : mapper.Rearranges declared document moved) :
    (∀ given, mapper.Gives model document given →
        ∃ other, mapper.Gives model moved other ∧ other.Perm given) ∧
      ∀ given, mapper.Gives model moved given →
        ∃ other, mapper.Gives model document other ∧ other.Perm given := by
  obtain ⟨added, same, foreign⟩ := rearranges
  have ignored : ∀ entry ∈ added, model.fieldStoredAs entry.1 = none := by
    intro entry member
    refine List.find?_eq_none.mpr fun field known stored => ?_
    refine (foreign entry member).2 model chosen (List.mem_map.mpr ⟨field, known, ?_⟩)
    simpa using stored
  constructor
  · intro given gives
    exact ((Gives.append_foreign ignored).mpr gives).perm same.symm
  · intro given gives
    obtain ⟨other, again, kept⟩ := gives.perm same
    exact ⟨other, (Gives.append_foreign ignored).mp again, kept⟩

/-- Decoding looks past the order of entries, and past those of no field. A document is decoded if
and only if it is in another order, and then to an entity of the same kind with the same
properties, perhaps in another order. The two entities equal each other as far as the first one
equals itself, so they do where the document holds neither NaN nor a text that is read as NaN. -/
theorem fromDocument_rearranged {plan : MapperPlan} {kind : String}
    (built : plan.assemble = .ok mapper) (silent : mapper.Silent) (named : mapper.PropertiesApart)
    (found : mapper.model? kind = some declared) (apart : (Bson.document moved).Apart)
    (rearranges : mapper.Rearranges declared document moved) (session later : Session) :
    let one := (mapper.fromDocument kind document session).1
    let other := (mapper.fromDocument kind moved later).1
    ((∃ entity, one = .ok entity) ↔ ∃ entity, other = .ok entity) ∧
      ∀ first second, one = .ok first → other = .ok second →
        second.kind = first.kind ∧ second.properties.Perm first.properties ∧
        first.same second = first.same first ∧ second.same first = first.same first ∧
        ((Bson.document document).Each Bson.notNaN →
          (Bson.document document).Each Bson.spellsNoNaN →
          first.same second = true ∧ second.same first = true) := by
  have sound := MapperPlan.sound_of_assemble built
  have registered := (model?_some found).1
  have before := rearranges.apart apart
  have selects := rearranges.modelOfDocument (MapperPlan.knowsKeys_of_assemble built) registered
    apart.distinct.1
  have reads (entity : Entity) := @Silent.fromDocument_ok_iff mapper sound silent named kind
    declared found document before.distinct.1 entity session
  have again (entity : Entity) := @Silent.fromDocument_ok_iff mapper sound silent named kind
    declared found moved apart.distinct.1 entity later
  simp only [selects] at again
  constructor
  · constructor
    · rintro ⟨entity, read⟩
      obtain ⟨model, known, chosen, -, gives⟩ := (reads entity).mp read
      obtain ⟨other, given, -⟩ := (rearranges.gives chosen).1 _ gives
      exact ⟨⟨model.name, other⟩, (again _).mpr ⟨model, known, chosen, rfl, given⟩⟩
    · rintro ⟨entity, read⟩
      obtain ⟨model, known, chosen, -, gives⟩ := (again entity).mp read
      obtain ⟨other, given, -⟩ := (rearranges.gives chosen).2 _ gives
      exact ⟨⟨model.name, other⟩, (reads _).mpr ⟨model, known, chosen, rfl, given⟩⟩
  · intro first second read readAgain
    obtain ⟨model, known, chosen, kind, gives⟩ := (reads first).mp read
    obtain ⟨other, given, same⟩ := (rearranges.gives chosen).1 _ gives
    obtain rfl : second = ⟨model.name, other⟩ := Except.ok.inj
      (readAgain.symm.trans ((again _).mpr ⟨model, known, chosen, rfl, given⟩))
    obtain ⟨name, properties⟩ := first
    obtain rfl := kind
    have distinct := gives.distinct (named model known) before.distinct.1
    obtain ⟨forth, back⟩ := @Value.same_perm model.name _ _ distinct same.symm
    refine ⟨rfl, same, forth, back, fun free spelled => ?_⟩
    have alike := @Value.alike_entity model.name _ distinct
      (gives.alike fun entry member => silent.reading_definite sound named
        (Bson.Clear.entry ⟨before, free, spelled⟩ member))
    exact ⟨forth.trans alike.1, back.trans alike.1⟩

/-- Gauges with a level, which is a double, and a unit. -/
def gauges : MapperPlan :=
  ⟨.standard, [{ EntityModel.blank "Gauge" with
    fields := [.plain "level" (.scalar .double), .plain "unit" (.scalar .string)] }], [], []⟩

/-- Gauges have no hooks. -/
theorem gauges_silent (built : gauges.assemble = .ok mapper) : mapper.Silent := by
  cases built
  refine ⟨rfl, fun model registered kind => ?_⟩
  obtain rfl := List.mem_singleton.mp registered
  rfl

/-- A note on a gauge belongs to no field. -/
theorem gauges_note (built : gauges.assemble = .ok mapper) : mapper.PropertiesApart ∧
    ∃ declared, mapper.model? "Gauge" = some declared ∧ ∀ content document moved,
      moved.Perm (document ++ [("note", content)]) →
        mapper.Rearranges declared document moved := by
  obtain ⟨named, declared, found, key, unstored⟩ : mapper.PropertiesApart ∧
      ∃ declared, mapper.model? "Gauge" = some declared ∧ "note" ∉ mapper.discriminatorKeys ∧
        ∀ model ∈ mapper.models, "note" ∉ model.fields.map Field.documentName := by
    cases built
    exact ⟨by unfold PropertiesApart; decide, _, rfl, by decide, by decide⟩
  refine ⟨named, declared, found, fun content document moved same => ⟨_, same, ?_⟩⟩
  intro entry member
  obtain rfl := List.mem_singleton.mp member
  exact ⟨key, fun model chosen =>
    unstored model (Meaning.registered_of_chosen (model?_some found).1 chosen)⟩

/-- A gauge equals the one that is read where its entries stand the other way round, behind a note
that belongs to no field. -/
theorem fromDocument_rearranged_gauge : ∃ mapper declared first second,
    let document : Document :=
      [("_t", .string "Gauge"), ("level", .double ⟨0x4008000000000000⟩), ("unit", .string "m")]
    let moved : Document := [("note", .array [.null]), ("unit", .string "m"),
      ("level", .double ⟨0x4008000000000000⟩), ("_t", .string "Gauge")]
    gauges.assemble = .ok mapper ∧ mapper.Silent ∧ mapper.PropertiesApart ∧
      mapper.model? "Gauge" = some declared ∧ (Bson.document moved).Apart ∧
      mapper.Rearranges declared document moved ∧
      (mapper.fromDocument "Gauge" document (.start fun _ => ⟨0⟩)).1 = .ok first ∧
      (mapper.fromDocument "Gauge" moved (.start fun _ => ⟨0⟩)).1 = .ok second ∧
      first.properties = [("level", .double ⟨0x4008000000000000⟩), ("unit", .string "m")] ∧
      second.properties.Perm first.properties ∧
      first.same second = true ∧ second.same first = true := by
  obtain ⟨mapper, built⟩ : ∃ mapper, gauges.assemble = .ok mapper := ⟨_, rfl⟩
  let document : Document :=
    [("_t", .string "Gauge"), ("level", .double ⟨0x4008000000000000⟩), ("unit", .string "m")]
  let moved : Document := [("note", .array [.null]), ("unit", .string "m"),
    ("level", .double ⟨0x4008000000000000⟩), ("_t", .string "Gauge")]
  have silent := gauges_silent built
  obtain ⟨named, declared, found, noted⟩ := gauges_note built
  have read : (do
      let mapper ← gauges.assemble
      (mapper.fromDocument "Gauge" document (.start fun _ => ⟨0⟩)).1) = .ok ⟨"Gauge",
        [("level", .double ⟨0x4008000000000000⟩), ("unit", .string "m")]⟩ := by decide +kernel
  rw [built] at read
  have apart : (Bson.document moved).Apart := by
    simp [moved, Bson.Apart, Bson.Each, Bson.subvalues, Bson.itemSubvalues, Bson.entrySubvalues,
      Bson.namesApart, Keyed.Distinct, Keyed.keys]
  have rearranges : mapper.Rearranges declared document moved :=
    noted _ document moved (List.reverse_perm (document ++ [("note", Bson.array [.null])]))
  have free : (Bson.document document).Each Bson.notNaN := by
    have number : Binary64.isNaN ⟨0x4008000000000000⟩ = false := by decide
    simp [document, Bson.Each, Bson.subvalues, Bson.entrySubvalues, Bson.notNaN, number]
  have spelled : (Bson.document document).Each Bson.spellsNoNaN := by
    have kind : Binary64.read (Conversion.trimmed "Gauge") = none := by decide
    have unit : Binary64.read (Conversion.trimmed "m") = none := by decide
    simp [document, Bson.Each, Bson.subvalues, Bson.entrySubvalues, Bson.spellsNoNaN, kind, unit]
  obtain ⟨both, alike⟩ := fromDocument_rearranged built silent named found apart rearranges
    (.start fun _ => ⟨0⟩) (.start fun _ => ⟨0⟩)
  obtain ⟨second, again⟩ := both.mp ⟨_, read⟩
  obtain ⟨-, same, -, -, equal⟩ := alike _ second read again
  exact ⟨mapper, declared, _, second, built, silent, named, found, apart, rearranges, read, again,
    rfl, same, equal free spelled⟩

/-- A level that is read as NaN does not equal itself: two gauges that are read from one document,
once with a note added to it, are not equal, though no number in it is NaN. -/
theorem fromDocument_unequal_gauge : ∃ mapper declared first second,
    let document : Document := [("level", .string "nan")]
    let moved : Document := [("note", .string "x"), ("level", .string "nan")]
    gauges.assemble = .ok mapper ∧ mapper.Silent ∧ mapper.PropertiesApart ∧
      mapper.model? "Gauge" = some declared ∧ (Bson.document moved).Apart ∧
      mapper.Rearranges declared document moved ∧ (Bson.document document).Each Bson.notNaN ∧
      (mapper.fromDocument "Gauge" document (.start fun _ => ⟨0⟩)).1 = .ok first ∧
      (mapper.fromDocument "Gauge" moved (.start fun _ => ⟨0⟩)).1 = .ok second ∧
      first.same second = false := by
  obtain ⟨mapper, built⟩ : ∃ mapper, gauges.assemble = .ok mapper := ⟨_, rfl⟩
  have silent := gauges_silent built
  obtain ⟨named, declared, found, noted⟩ := gauges_note built
  have first : (do
      let mapper ← gauges.assemble
      (mapper.fromDocument "Gauge" [("level", .string "nan")] (.start fun _ => ⟨0⟩)).1) =
        .ok ⟨"Gauge", [("level", .double .nan)]⟩ := by decide +kernel
  have second : (do
      let mapper ← gauges.assemble
      (mapper.fromDocument "Gauge" [("note", .string "x"), ("level", .string "nan")]
        (.start fun _ => ⟨0⟩)).1) = .ok ⟨"Gauge", [("level", .double .nan)]⟩ := by decide +kernel
  rw [built] at first second
  have unequal : (⟨"Gauge", [("level", .double .nan)]⟩ : Entity).same
      ⟨"Gauge", [("level", .double .nan)]⟩ = false := by
    have nan : Binary64.nan.isNaN = true := by decide
    simp [Entity.same, Value.ofEntity, Value.same, Value.sameProperties, Value.isEmptyCollection,
      Keyed.get?, Binary64.same, nan]
  refine ⟨mapper, declared, _, _, built, silent, named, found, ?_,
    noted _ _ _ (List.Perm.swap _ _ []), ?_, first, second, unequal⟩
  · simp [Bson.Apart, Bson.Each, Bson.subvalues, Bson.entrySubvalues, Bson.namesApart,
      Keyed.Distinct, Keyed.keys]
  · simp [Bson.Each, Bson.subvalues, Bson.entrySubvalues, Bson.notNaN]

end Mapper

end EntityMapping
