import EntityMapping.Decidable
import EntityMapping.Proofs.Decoding.Fields
import EntityMapping.Proofs.Mapper.Anywhere
import EntityMapping.Proofs.Mapper.Criteria
import EntityMapping.Proofs.Value.Conversion
/-!
# Collections and their parts

A list or a map whose parts are all read by the codec of their type is read part by part. As soon
as one part is of another type, or a single value stands for a list, the whole value is read again
for what it is and converted. That second reading does not know the declared type: it takes a
document for an entity only by its discriminator, of exactly the kind that is declared, and takes
whatever is in a document that is not recognised for plain lists and maps. So a collection is read
as its parts are by themselves exactly where no part that the codec reads needs the declared type.
-/

namespace EntityMapping

namespace Mapper

/-- A stored value shows that it is a value of a declared type. The document of an entity carries
the discriminator of the declared kind itself, and the document of a map carries none and holds no
entity; for a list, each item shows it. -/
def Evident (mapper : Mapper) : FieldType → Bson → Value → Prop
  | .entity name, .document document, _ =>
    (Decoding.recognise mapper document).map EntityModel.name = some name
  | .list element, .array items, .array values =>
    List.Forall₂ (Evident mapper element) items values
  | .map _, .document document, value =>
    Decoding.recognise mapper document = none ∧ value.holdsEntity = false
  | _, _, _ => True

variable {mapper : Mapper} {type : FieldType} {codec : Codec} {stored : Bson} {value : Value}

/-! ## What needs no declared type -/

/-- What is read for what it is without an entity is what is stored. -/
theorem Silent.eq_ofBson_within (silent : mapper.Silent) :
    ∀ {depth : Nat} {stored : Bson} {value : Value}, stored.tokens.length ≤ depth →
      stored.Distinct → mapper.reading .any stored = .ok value → value.holdsEntity = false →
      value = .ofBson stored
  | 0, stored, _, deep, _, _, _ => absurd deep (Nat.not_le.mpr stored.tokens_length_pos)
  | depth + 1, stored, value, deep, distinct, read, bare => by
    cases stored with
    | array items =>
      rw [silent.reading_any_array] at read
      obtain ⟨values, walked, rfl⟩ := ok_of_map read
      rw [Value.holdsEntity_array, List.any_eq_false] at bare
      have same : List.Forall₂ (fun value item => value = .ofBson item) values items := by
        refine (forall₂_mem (mapM_eq_ok.mp walked)).flip.imp fun value item part => ?_
        obtain ⟨member, among, again⟩ := part
        have shorter := Bson.tokens_length_item member
        exact @Silent.eq_ofBson_within silent depth item value (by omega)
          (distinct.of_mem member) again (by simpa using bare value among)
      have whole : List.Forall₂ (· = ·) values (items.map Value.ofBson) :=
        List.forall₂_map_right_iff.mpr same
      rw [List.forall₂_eq_eq_eq] at whole
      rw [Value.ofBson, Value.ofItems_eq, whole]
    | document document =>
      rw [silent.reading_any_document distinct] at read
      split at read
      · obtain ⟨_, _, _, _, _, _, _, rfl⟩ := silent.reading_entity_ok distinct read
        cases bare
      · exact (Except.ok.inj read).symm
    | _ =>
      exact (Except.ok.inj ((silent.reading_any_single (by simp) (by simp)).symm.trans read)).symm

/-- A part is converted from the plain value that is stored if it is where the codec reads it: null
is. -/
theorem convert_ofBson_part {stored : Bson} {value : Value}
    (read : mapper.readingPart codec stored = .ok value)
    (whole : mapper.reading codec stored = .ok value →
      convert type (.ofBson stored) = .ok value) :
    convert type (.ofBson stored) = .ok value := by
  unfold readingPart at read
  split at read
  · rename_i empty
    cases read
    cases stored <;> cases empty
    exact convert_null type
  · exact whole read

/-- What is stored by a scalar type is of it. -/
theorem convert_scalar_stored {scalar : ScalarType}
    (same : stored.elementType = scalar.elementType) :
    convert (.scalar scalar) (.ofBson stored) = .ok (.ofBson stored) := by
  refine convert_scalar_same ?_
  cases scalar <;> cases stored <;> cases same <;> rfl

/-- What the codec of a type reads without an entity is what conversion makes of the plain value
that is stored. -/
theorem Silent.convert_ofBson (silent : mapper.Silent) {stored : Bson} {value : Value}
    (known : mapper.registry.codec type = .ok codec) (distinct : stored.Distinct)
    (read : mapper.reading codec stored = .ok value) (bare : value.holdsEntity = false) :
    convert type (.ofBson stored) = .ok value := by
  induction type generalizing codec stored value with
  | scalar scalar =>
    cases known
    rw [silent.reading_scalar] at read
    split at read
    · rename_i same
      cases read
      exact convert_scalar_stored same
    · cases read
  | any =>
    cases known
    rw [convert_any, silent.eq_ofBson_within (le_refl _) distinct read bare]
  | entity name =>
    obtain ⟨rfl, -⟩ := Registry.codec_entity known
    obtain ⟨_, _, _, _, -, -, -, rfl⟩ := silent.reading_entity_ok distinct read
    cases bare
  | list element ih =>
    obtain ⟨part, coded, rfl⟩ := ok_of_map known
    obtain ⟨items, values, rfl, rfl, each⟩ := silent.reading_list_ok read
    rw [Value.holdsEntity_array, List.any_eq_false] at bare
    rw [Value.ofBson, Value.ofItems_eq, convert_list_array_iff, List.forall₂_map_left_iff]
    refine (forall₂_mem each).imp fun item value ⟨member, among, read⟩ => ?_
    exact convert_ofBson_part read fun alone =>
      ih coded (distinct.of_mem member) alone (by simpa using bare value among)
  | map element ih =>
    obtain ⟨part, coded, rfl⟩ := ok_of_map known
    obtain ⟨document, values, rfl, rfl, each⟩ := silent.reading_map_ok distinct read
    rw [Value.holdsEntity_map, List.any_eq_false] at bare
    rw [Value.ofBson, Value.ofEntries_eq, convert_map_map_iff, List.forall₂_map_left_iff]
    refine (forall₂_mem each).imp fun entry value ⟨member, among, named, read⟩ => ?_
    exact ⟨named, convert_ofBson_part read fun alone =>
      ih coded (distinct.2.of_mem member) alone (by simpa using bare value among)⟩

/-- What a field gives without an entity is what conversion makes of the plain value that is
stored. -/
theorem Silent.convert_ofBson_iff (silent : mapper.Silent) {stored : Bson} {value : Value}
    (known : mapper.registry.codec type = .ok codec) (distinct : stored.Distinct)
    (gives : mapper.FieldGives type codec stored value) :
    convert type (.ofBson stored) = .ok value ↔ value.holdsEntity = false := by
  constructor
  · intro done
    rw [holdsEntity_convert done, Value.holdsEntity_ofBson]
  · intro bare
    cases gives with
    | part read =>
      exact convert_ofBson_part read fun whole => silent.convert_ofBson known distinct whole bare
    | conversion _ _ again converted =>
      rw [holdsEntity_convert converted] at bare
      rw [← silent.eq_ofBson_within (le_refl _) distinct again bare, converted]

/-! ## The second reading -/

/-- A list is read again item by item. -/
theorem Silent.readsAgain_list (silent : mapper.Silent) {items : List Bson} {values : List Value} :
    mapper.ReadsAgain (.list type) (.array items) (.array values) ↔
      List.Forall₂ (mapper.ReadsAgain type) items values := by
  refine Iff.trans ?_ exists_forall₂_iff
  constructor
  · rintro ⟨raw, read, converted⟩
    have whole := read
    rw [silent.reading_any_array] at whole
    obtain ⟨raws, -, rfl⟩ := ok_of_map whole
    exact ⟨raws, silent.reading_any_array_iff.mp read, convert_list_array_iff.mp converted⟩
  · rintro ⟨raws, read, converted⟩
    exact ⟨.array raws, silent.reading_any_array_iff.mpr read,
      convert_list_array_iff.mpr converted⟩

/-- A document is read again as a map where it is not recognised, and then from the plain values in
it. -/
theorem Silent.readsAgain_map (silent : mapper.Silent) {document : Document}
    (distinct : document.Distinct) {values : List (String × Value)} :
    mapper.ReadsAgain (.map type) (.document document) (.map values) ↔
      Decoding.recognise mapper document = none ∧
        convert (.map type) (.ofBson (.document document)) = .ok (.map values) := by
  rw [ReadsAgain, silent.reading_any_document distinct]
  cases recognised : Decoding.recognise mapper document with
  | none => simp
  | some model =>
    simp only [reduceCtorEq, false_and, iff_false, not_exists, not_and]
    intro raw read converted
    obtain ⟨_, _, _, _, -, -, -, rfl⟩ := silent.reading_entity_ok distinct read
    rw [convert_map_other (by simp) (by simp)] at converted
    cases converted

/-- The entity in a document that is recognised is of the model it is recognised for. -/
theorem Silent.reading_recognised (silent : mapper.Silent) {document : Document}
    {model : EntityModel} (distinct : document.Distinct)
    (recognised : Decoding.recognise mapper document = some model)
    (read : mapper.reading (.entity model.name) (.document document) = .ok value) :
    ∃ properties, value = .entity model.name properties := by
  obtain ⟨_, declared, chosen, properties, same, found, selected, rfl⟩ :=
    silent.reading_entity_ok distinct read
  cases same
  obtain ⟨known, own⟩ := model_of_recognise recognised
  obtain rfl := Option.some.inj (known.symm.trans found)
  obtain rfl := Except.ok.inj (own.symm.trans selected)
  exact ⟨properties, rfl⟩

/-- The document of an entity is read again as one of a kind where its discriminator is that of the
kind. -/
theorem Silent.readsAgain_entity (silent : mapper.Silent) {document : Document} {name : String}
    (distinct : document.Distinct)
    (read : mapper.reading (.entity name) (.document document) = .ok value) :
    mapper.ReadsAgain (.entity name) (.document document) value ↔
      (Decoding.recognise mapper document).map EntityModel.name = some name := by
  rw [ReadsAgain, silent.reading_any_document distinct]
  cases recognised : Decoding.recognise mapper document with
  | none =>
    simp only [Option.map_none, reduceCtorEq, iff_false, not_exists, not_and]
    intro raw plain converted
    cases plain
    obtain ⟨-, _, same⟩ := (convert_entity (by simp [Value.ofBson])).mp converted
    simp [Value.ofBson] at same
  | some model =>
    dsimp only [Option.map_some]
    rw [Option.some.injEq]
    constructor
    · rintro ⟨raw, again, converted⟩
      obtain ⟨_, rfl⟩ := silent.reading_recognised distinct recognised again
      obtain ⟨-, _, kind⟩ := (convert_entity (by simp)).mp converted
      exact (Value.entity.inj kind).1
    · rintro rfl
      obtain ⟨_, rfl⟩ := silent.reading_recognised distinct recognised read
      exact ⟨_, read, (convert_entity (by simp)).mpr ⟨rfl, _, rfl⟩⟩

/-- A part that is null, or that the codec reads, is read again as it is where that holds of what
the codec reads. -/
theorem Silent.readsAgain_part (silent : mapper.Silent) {stored : Bson} {value : Value}
    (read : mapper.readingPart codec stored = .ok value)
    (whole : mapper.reading codec stored = .ok value →
      (mapper.ReadsAgain type stored value ↔ mapper.Evident type stored value)) :
    mapper.ReadsAgain type stored value ↔ mapper.Evident type stored value := by
  unfold readingPart at read
  split at read
  · rename_i empty
    cases read
    cases stored <;> cases empty
    have again : mapper.reading .any .null = .ok .null :=
      silent.reading_any_single (by simp) (by simp)
    exact iff_of_true ⟨.null, again, convert_null type⟩ (by cases type <;> simp [Evident])
  · exact whole read

/-- What the codec of a type reads is read again exactly where it shows its type. -/
theorem Silent.readsAgain_iff_evident (silent : mapper.Silent) {stored : Bson} {value : Value}
    (known : mapper.registry.codec type = .ok codec) (distinct : stored.Distinct)
    (read : mapper.reading codec stored = .ok value) :
    mapper.ReadsAgain type stored value ↔ mapper.Evident type stored value := by
  induction type generalizing codec stored value with
  | scalar scalar =>
    cases known
    rw [silent.reading_scalar] at read
    split at read
    · rename_i same
      cases read
      have single : mapper.reading .any stored = .ok (.ofBson stored) := by
        refine silent.reading_any_single ?_ ?_ <;> rintro _ rfl <;> cases scalar <;> cases same
      exact iff_of_true ⟨_, single, convert_scalar_stored same⟩ (by simp [Evident])
    · cases read
  | any =>
    cases known
    exact iff_of_true ⟨value, read, convert_any value⟩ (by simp [Evident])
  | entity name =>
    obtain ⟨rfl, -⟩ := Registry.codec_entity known
    obtain ⟨document, _, _, _, rfl, -, -, -⟩ := silent.reading_entity_ok distinct read
    rw [silent.readsAgain_entity distinct read, Evident]
  | list element ih =>
    obtain ⟨part, coded, rfl⟩ := ok_of_map known
    obtain ⟨items, values, rfl, rfl, each⟩ := silent.reading_list_ok read
    rw [silent.readsAgain_list, Evident]
    refine forall₂_iff ((forall₂_mem each).imp fun item value ⟨member, _, read⟩ => ?_)
    exact silent.readsAgain_part read fun whole => ih coded (distinct.of_mem member) whole
  | map element ih =>
    have bare := fun plain => silent.convert_ofBson known distinct read plain
    obtain ⟨part, coded, rfl⟩ := ok_of_map known
    obtain ⟨document, values, rfl, rfl, -⟩ := silent.reading_map_ok distinct read
    rw [silent.readsAgain_map distinct, Evident]
    refine and_congr_right fun _ => ⟨fun done => ?_, bare⟩
    rw [holdsEntity_convert done, Value.holdsEntity_ofBson]

/-- What a field gives is read again exactly where it shows its type, if the codec takes it. -/
theorem Silent.readsAgain_iff (silent : mapper.Silent) {stored : Bson} {value : Value}
    (known : mapper.registry.codec type = .ok codec) (distinct : stored.Distinct)
    (gives : mapper.FieldGives type codec stored value) :
    mapper.ReadsAgain type stored value ↔
      (mapper.Takes codec stored → mapper.Evident type stored value) := by
  cases gives with
  | part read =>
    rw [silent.readsAgain_part read fun whole => silent.readsAgain_iff_evident known distinct whole]
    simp only [silent.takes_iff.mpr ⟨value, read⟩, true_implies]
  | conversion refused _ again converted =>
    refine iff_of_true ⟨_, again, converted⟩ fun takes => ?_
    obtain ⟨found, read⟩ := silent.takes_iff.mp takes
    cases read.symm.trans refused

/-- Nothing but an array is read for what it is as a list. -/
theorem Silent.reading_any_ne_array (silent : mapper.Silent) {stored : Bson} {raw : Value}
    (distinct : stored.Distinct) (single : ∀ items, stored ≠ .array items)
    (read : mapper.reading .any stored = .ok raw) : ∀ items, raw ≠ .array items := by
  rintro items rfl
  cases stored with
  | array items => exact single items rfl
  | document document =>
    rw [silent.reading_any_document distinct] at read
    split at read
    · obtain ⟨_, _, _, _, _, _, _, same⟩ := silent.reading_entity_ok distinct read
      cases same
    · simp [Value.ofBson] at read
  | _ =>
    rw [silent.reading_any_single (by simp) (by simp)] at read
    simp [Value.ofBson] at read

/-- A value that is no list is read again as a list of one where it is read again as that one. -/
theorem Silent.readsAgain_single (silent : mapper.Silent) {stored : Bson} {value : Value}
    (distinct : stored.Distinct) (single : ∀ items, stored ≠ .array items)
    (present : value ≠ .null) :
    mapper.ReadsAgain (.list type) stored (.array [value]) ↔
      mapper.ReadsAgain type stored value := by
  refine exists_congr fun raw => and_congr_right fun read => ?_
  rcases eq_or_ne raw .null with rfl | filled
  · simp [convert_null, Ne.symm present]
  · rw [convert_list_single filled (silent.reading_any_ne_array distinct single read)]
    cases convert type raw <;> simp [Except.map]

/-- A field of a list type reads a single stored value as the list of what a field of the type of
the items reads it as, exactly where the value shows its type or the codec of that type does not
read it. -/
theorem fieldReads_single_iff (silent : mapper.Silent)
    (known : mapper.registry.codec type = .ok codec) (distinct : stored.Distinct)
    (single : ∀ items, stored ≠ .array items) (present : value ≠ .null)
    (reads : mapper.FieldReads type stored value) :
    mapper.FieldReads (.list type) stored (.array [value]) ↔
      (mapper.Takes codec stored → mapper.Evident type stored value) := by
  have listed := Registry.codec_list known
  have gives := (silent.fieldReads_iff known).mp reads
  have filled : stored.elementType ≠ .null := by
    intro empty
    have read : mapper.readingPart codec stored = .ok .null := if_pos empty
    exact present ((FieldGives.part_iff read).mp gives)
  have refused : mapper.readingPart (.list codec) stored =
      .error (Meaning.mismatch .array stored) :=
    (if_neg filled).trans (silent.reading_list_other codec single)
  rw [silent.fieldReads_iff listed, FieldGives.conversion_iff refused,
    silent.readsAgain_single distinct single present, silent.readsAgain_iff known distinct gives]
  exact and_iff_right rfl

/-- A field of a list type gives the list of what its items give, exactly where the codec takes all
of them, or all that it takes show their type. -/
theorem Silent.gives_list_iff (silent : mapper.Silent)
    (known : mapper.registry.codec type = .ok codec) {items : List Bson} {values : List Value}
    (distinct : (Bson.array items).Distinct)
    (gives : List.Forall₂ (mapper.FieldGives type codec) items values) :
    mapper.FieldGives (.list type) (.list codec) (.array items) (.array values) ↔
      (∀ item ∈ items, mapper.Takes codec item) ∨
        List.Forall₂ (fun item value => mapper.Takes codec item →
          mapper.Evident type item value) items values := by
  have part : mapper.readingPart (.list codec) (.array items) =
      mapper.reading (.list codec) (.array items) := rfl
  refine FieldGives.iff_or (fun found read => ?_) (fun taken => ?_) (fun cause refused => ?_) ?_
  · obtain ⟨_, values, same, -, each⟩ := silent.reading_list_ok (part.symm.trans read)
    cases same
    exact fun item member => silent.takes_iff.mpr (exists_of_mem_left each item member)
  · rw [part, silent.reading_list_iff]
    exact (forall₂_mem gives).imp fun item value ⟨member, _, each⟩ =>
      (silent.takes_iff_gives each).mp (taken item member)
  · rw [part, silent.reading_list] at refused
    obtain ⟨item, member, culprit⟩ := mem_of_mapM_error (error_of_map refused)
    obtain ⟨value, given⟩ := exists_of_mem_left gives item member
    exact ((FieldGives.conversion_iff culprit).mp given).1
  · rw [silent.readsAgain_list]
    refine forall₂_iff ((forall₂_mem gives).imp fun item value ⟨member, _, each⟩ => ?_)
    exact silent.readsAgain_iff known (distinct.of_mem member) each

/-- A field of a map type gives the map of what its values give, exactly where the codec takes all
of them, or the document is not recognised and there is no entity among them. -/
theorem Silent.gives_map_iff (silent : mapper.Silent)
    (known : mapper.registry.codec type = .ok codec) {document : Document}
    {values : List (String × Value)} (distinct : document.Distinct)
    (gives : List.Forall₂ (fun entry value => entry.1 = value.1 ∧
      mapper.FieldGives type codec entry.2 value.2) document values) :
    mapper.FieldGives (.map type) (.map codec) (.document document) (.map values) ↔
      (∀ entry ∈ document, mapper.Takes codec entry.2) ∨
        Decoding.recognise mapper document = none ∧
          ∀ entry ∈ values, entry.2.holdsEntity = false := by
  have part : mapper.readingPart (.map codec) (.document document) =
      mapper.reading (.map codec) (.document document) := rfl
  refine FieldGives.iff_or (fun found read => ?_) (fun taken => ?_) (fun cause refused => ?_) ?_
  · obtain ⟨_, values, same, -, each⟩ := silent.reading_map_ok distinct (part.symm.trans read)
    cases same
    intro entry member
    obtain ⟨value, -, read⟩ := exists_of_mem_left each entry member
    exact silent.takes_iff.mpr ⟨value.2, read⟩
  · rw [part, silent.reading_map_iff distinct.1]
    exact (forall₂_mem gives).imp fun entry value ⟨member, _, named, each⟩ =>
      ⟨named, (silent.takes_iff_gives each).mp (taken entry member)⟩
  · rw [part, silent.reading_map codec distinct.1] at refused
    obtain ⟨entry, member, culprit⟩ := mem_of_mapM_error (error_of_map refused)
    obtain ⟨value, -, given⟩ := exists_of_mem_left gives entry member
    exact ((FieldGives.conversion_iff (error_of_map culprit)).mp given).1
  · rw [silent.readsAgain_map distinct]
    refine and_congr_right fun _ => ⟨fun done => ?_, fun bare => ?_⟩
    · have plain := holdsEntity_convert done
      rw [Value.holdsEntity_ofBson, Value.holdsEntity_map, List.any_eq_false] at plain
      exact fun entry member => by simpa using plain entry member
    · rw [Value.ofBson, Value.ofEntries_eq, convert_map_map_iff, List.forall₂_map_left_iff]
      exact (forall₂_mem gives).imp fun entry value ⟨member, among, named, each⟩ =>
        ⟨named, (silent.convert_ofBson_iff known (distinct.2.of_mem member) each).mpr
          (bare value among)⟩

/-- The parts of collections are read as fields of their type are. A field of a list type reads an
array as the list of what fields of the type of the items read them as, exactly where the codec
takes all of them, or all that it takes show their type. A field of a map type reads a document as
the map of what fields of the type of the values read them as, exactly where the codec takes all of
them, or the document is not recognised and there is no entity among them. -/
theorem fieldReads_parts_iff (silent : mapper.Silent)
    (known : mapper.registry.codec type = .ok codec) :
    (∀ {items : List Bson} {values : List Value}, (Bson.array items).Distinct →
      List.Forall₂ (mapper.FieldReads type) items values →
      (mapper.FieldReads (.list type) (.array items) (.array values) ↔
        (∀ item ∈ items, mapper.Takes codec item) ∨
          List.Forall₂ (fun item value => mapper.Takes codec item →
            mapper.Evident type item value) items values)) ∧
    ∀ {document : Document} {values : List (String × Value)}, document.Distinct →
      List.Forall₂ (fun entry value => entry.1 = value.1 ∧
        mapper.FieldReads type entry.2 value.2) document values →
      (mapper.FieldReads (.map type) (.document document) (.map values) ↔
        (∀ entry ∈ document, mapper.Takes codec entry.2) ∨
          Decoding.recognise mapper document = none ∧
            ∀ entry ∈ values, entry.2.holdsEntity = false) := by
  have listed := Registry.codec_list known
  have mapped := Registry.codec_map known
  refine ⟨fun {items values} distinct reads => ?_, fun {document values} distinct reads => ?_⟩
  · have gives := reads.imp fun _ _ each => (silent.fieldReads_iff known).mp each
    rw [silent.fieldReads_iff listed, silent.gives_list_iff known distinct gives]
  · have gives : List.Forall₂ (fun entry value => entry.1 = value.1 ∧
        mapper.FieldGives type codec entry.2 value.2) document values :=
      reads.imp fun _ _ each => ⟨each.1, (silent.fieldReads_iff known).mp each.2⟩
    rw [silent.fieldReads_iff mapped, silent.gives_map_iff known distinct gives]

/-- Shapes, and circles among them. -/
def circledShapes : MapperPlan :=
  ⟨.standard, [.blank "Shape", (EntityModel.blank "Circle").inherit (.blank "Shape")], [], []⟩

/-- The document of an entity without properties. -/
def marked (kind : String) : Bson := .document [("_t", .string kind)]

/-- Shapes and circles are without hooks, and may be declared. -/
theorem circledShapes_plain (built : circledShapes.assemble = .ok mapper) :
    mapper.Silent ∧ mapper.registry.codec (.entity "Shape") = .ok (.entity "Shape") := by
  cases built
  refine ⟨⟨rfl, fun model registered kind => ?_⟩, rfl⟩
  rcases List.mem_pair.mp registered with rfl | rfl <;> rfl

/-- A document with nothing but a discriminator stores no name twice. -/
theorem marked_distinct (kind : String) : (marked kind).Distinct := by
  simp [marked, Bson.Distinct, Bson.EntriesDistinct, Keyed.Distinct, Keyed.keys]

/-- Where a shape is declared, a circle is read as a circle, and a shape as a shape. -/
theorem circledShapes_reads (built : circledShapes.assemble = .ok mapper) :
    mapper.FieldReads (.entity "Shape") (marked "Circle") (.entity "Circle" []) ∧
      mapper.FieldReads (.entity "Shape") (marked "Shape") (.entity "Shape" []) := by
  obtain ⟨silent, known⟩ := circledShapes_plain built
  have circle : (do
      let mapper ← circledShapes.assemble
      mapper.readAlone (.entity "Shape") (.entity "Shape") (marked "Circle")) =
        .ok ((Entity.empty "Alone").set "value" (.entity "Circle" [])) := by decide +kernel
  have shape : (do
      let mapper ← circledShapes.assemble
      mapper.readAlone (.entity "Shape") (.entity "Shape") (marked "Shape")) =
        .ok ((Entity.empty "Alone").set "value" (.entity "Shape" [])) := by decide +kernel
  rw [built] at circle shape
  exact ⟨silent.fieldReads_of_alone known circle, silent.fieldReads_of_alone known shape⟩

/-- A shape where a list of shapes is declared is read as the list of it. -/
theorem fieldReads_single_iff_shape : ∃ mapper, circledShapes.assemble = .ok mapper ∧
    mapper.Silent ∧ mapper.registry.codec (.entity "Shape") = .ok (.entity "Shape") ∧
    (marked "Shape").Distinct ∧ (∀ items, marked "Shape" ≠ .array items) ∧
    mapper.FieldReads (.entity "Shape") (marked "Shape") (.entity "Shape" []) ∧
    mapper.FieldReads (.list (.entity "Shape")) (marked "Shape")
      (.array [.entity "Shape" []]) := by
  obtain ⟨mapper, built⟩ : ∃ mapper, circledShapes.assemble = .ok mapper := ⟨_, rfl⟩
  obtain ⟨silent, known⟩ := circledShapes_plain built
  obtain ⟨-, reads⟩ := circledShapes_reads built
  have evident : mapper.Evident (.entity "Shape") (marked "Shape") (.entity "Shape" []) := by
    cases built
    rfl
  have single : ∀ items, marked "Shape" ≠ .array items := nofun
  have present : Value.entity "Shape" [] ≠ .null := nofun
  exact ⟨mapper, built, silent, known, marked_distinct _, single, reads,
    (fieldReads_single_iff silent known (marked_distinct _) single present reads).mpr
      fun _ => evident⟩

/-- A circle where a shape is declared is a circle, and where a list of shapes is declared it is no
list of a circle. -/
theorem fieldReads_circle_single : ∃ mapper, circledShapes.assemble = .ok mapper ∧
    mapper.Silent ∧ mapper.registry.codec (.entity "Shape") = .ok (.entity "Shape") ∧
    (marked "Circle").Distinct ∧ (∀ items, marked "Circle" ≠ .array items) ∧
    mapper.FieldReads (.entity "Shape") (marked "Circle") (.entity "Circle" []) ∧
    ¬ mapper.FieldReads (.list (.entity "Shape")) (marked "Circle")
      (.array [.entity "Circle" []]) := by
  obtain ⟨mapper, built⟩ : ∃ mapper, circledShapes.assemble = .ok mapper := ⟨_, rfl⟩
  obtain ⟨silent, known⟩ := circledShapes_plain built
  refine ⟨mapper, built, silent, known, marked_distinct _, nofun, (circledShapes_reads built).1,
    fun reads => ?_⟩
  have failed : (do
      let mapper ← circledShapes.assemble
      mapper.readAlone (.list (.entity "Shape")) (.list (.entity "Shape")) (marked "Circle")) =
        .error (.decoding "Alone" "value" (.conversion (.entity "Shape") "entity")) := by decide +kernel
  rw [built] at failed
  cases (reads.alone (Registry.codec_list known)).symm.trans failed

/-- A number and a text that spells one are read as numbers in a list and in a map. -/
theorem fieldReads_parts_iff_numbers : ∃ mapper, circledShapes.assemble = .ok mapper ∧
    mapper.Silent ∧ mapper.registry.codec (.scalar .int32) = .ok (.scalar .int32) ∧
    (Bson.array [.int32 1, .string "2"]).Distinct ∧
    Document.Distinct [("a", .int32 1), ("b", .string "2")] ∧
    mapper.FieldReads (.scalar .int32) (.int32 1) (.int32 1) ∧
    mapper.FieldReads (.scalar .int32) (.string "2") (.int32 2) ∧
    mapper.FieldReads (.list (.scalar .int32)) (.array [.int32 1, .string "2"])
      (.array [.int32 1, .int32 2]) ∧
    mapper.FieldReads (.map (.scalar .int32)) (.document [("a", .int32 1), ("b", .string "2")])
      (.map [("a", .int32 1), ("b", .int32 2)]) := by
  obtain ⟨mapper, built⟩ : ∃ mapper, circledShapes.assemble = .ok mapper := ⟨_, rfl⟩
  obtain ⟨silent, -⟩ := circledShapes_plain built
  have known : mapper.registry.codec (.scalar .int32) = .ok (.scalar .int32) := rfl
  have number : (do
      let mapper ← circledShapes.assemble
      mapper.readAlone (.scalar .int32) (.scalar .int32) (.int32 1)) =
        .ok ((Entity.empty "Alone").set "value" (.int32 1)) := by decide +kernel
  have text : (do
      let mapper ← circledShapes.assemble
      mapper.readAlone (.scalar .int32) (.scalar .int32) (.string "2")) =
        .ok ((Entity.empty "Alone").set "value" (.int32 2)) := by decide +kernel
  rw [built] at number text
  have one := silent.fieldReads_of_alone known number
  have two := silent.fieldReads_of_alone known text
  have items : (Bson.array [.int32 1, .string "2"]).Distinct := by
    simp [Bson.Distinct, Bson.ItemsDistinct]
  have entries : Document.Distinct [("a", .int32 1), ("b", .string "2")] := by
    simp [Document.Distinct, Bson.Distinct, Bson.EntriesDistinct, Keyed.Distinct, Keyed.keys]
  have bare : Decoding.recognise mapper [("a", .int32 1), ("b", .string "2")] = none := by
    cases built
    rfl
  refine ⟨mapper, built, silent, known, items, entries, one, two,
    ((fieldReads_parts_iff silent known).1 items (.cons one (.cons two .nil))).mpr (.inr ?_),
    ((fieldReads_parts_iff silent known).2 entries
      (.cons ⟨rfl, one⟩ (.cons ⟨rfl, two⟩ .nil))).mpr (.inr ⟨bare, ?_⟩)⟩
  · exact .cons (fun _ => trivial) (.cons (fun _ => trivial) .nil)
  · simp [Value.holdsEntity]

/-- A list of a circle, and a shape alone, are read as lists of shapes. As items of a list and as
values of a map they are not: the shape makes all be read again, and then the circle is no shape, or
in the map a mere map. -/
theorem fieldReads_circles_with_shape : ∃ mapper, circledShapes.assemble = .ok mapper ∧
    mapper.Silent ∧
    mapper.registry.codec (.list (.entity "Shape")) = .ok (.list (.entity "Shape")) ∧
    (Bson.array [.array [marked "Circle"], marked "Shape"]).Distinct ∧
    Document.Distinct [("a", .array [marked "Circle"]), ("b", marked "Shape")] ∧
    mapper.FieldReads (.list (.entity "Shape")) (.array [marked "Circle"])
      (.array [.entity "Circle" []]) ∧
    mapper.FieldReads (.list (.entity "Shape")) (marked "Shape") (.array [.entity "Shape" []]) ∧
    (¬ mapper.FieldReads (.list (.list (.entity "Shape")))
      (.array [.array [marked "Circle"], marked "Shape"])
      (.array [.array [.entity "Circle" []], .array [.entity "Shape" []]])) ∧
    ¬ mapper.FieldReads (.map (.list (.entity "Shape")))
      (.document [("a", .array [marked "Circle"]), ("b", marked "Shape")])
      (.map [("a", .array [.entity "Circle" []]), ("b", .array [.entity "Shape" []])]) := by
  obtain ⟨mapper, built⟩ : ∃ mapper, circledShapes.assemble = .ok mapper := ⟨_, rfl⟩
  obtain ⟨silent, shape⟩ := circledShapes_plain built
  have known := Registry.codec_list shape
  have circles : (do
      let mapper ← circledShapes.assemble
      mapper.readAlone (.list (.entity "Shape")) (.list (.entity "Shape"))
        (.array [marked "Circle"])) =
        .ok ((Entity.empty "Alone").set "value" (.array [.entity "Circle" []])) := by decide +kernel
  have alone : (do
      let mapper ← circledShapes.assemble
      mapper.readAlone (.list (.entity "Shape")) (.list (.entity "Shape")) (marked "Shape")) =
        .ok ((Entity.empty "Alone").set "value" (.array [.entity "Shape" []])) := by decide +kernel
  have listed : (do
      let mapper ← circledShapes.assemble
      mapper.readAlone (.list (.list (.entity "Shape"))) (.list (.list (.entity "Shape")))
        (.array [.array [marked "Circle"], marked "Shape"])) =
        .error (.decoding "Alone" "value" (.conversion (.entity "Shape") "entity")) := by decide +kernel
  have mapped : (do
      let mapper ← circledShapes.assemble
      mapper.readAlone (.map (.list (.entity "Shape"))) (.map (.list (.entity "Shape")))
        (.document [("a", .array [marked "Circle"]), ("b", marked "Shape")])) =
        .error (.decoding "Alone" "value" (.conversion (.entity "Shape") "map")) := by decide +kernel
  rw [built] at circles alone listed mapped
  refine ⟨mapper, built, silent, known, ?_, ?_, silent.fieldReads_of_alone known circles,
    silent.fieldReads_of_alone known alone, fun reads => ?_, fun reads => ?_⟩
  · simp [marked, Bson.Distinct, Bson.ItemsDistinct, Bson.EntriesDistinct, Keyed.Distinct,
      Keyed.keys]
  · simp [marked, Document.Distinct, Bson.Distinct, Bson.ItemsDistinct, Bson.EntriesDistinct,
      Keyed.Distinct, Keyed.keys]
  · cases (reads.alone (Registry.codec_list known)).symm.trans listed
  · cases (reads.alone (Registry.codec_map known)).symm.trans mapped

end Mapper

end EntityMapping
