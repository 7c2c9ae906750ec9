import EntityMapping.Decidable
import EntityMapping.Model.Declaration
import EntityMapping.Proofs.Mapper.Recognition
import EntityMapping.Proofs.Mapper.RoundTrip
import EntityMapping.Proofs.Value.Agreement
/-!
# What is stored where anything may stand

One recursion stores a value where anything may stand, and three ways lead back: a
document that is recognised is read as its entity, a list is read item by item, and any
other document is taken for the map that it is, with everything in it. So an entity comes
back by itself and from lists of any depth, while an entity in a map comes back as a map.
The induction over the value keeps both readings of what is stored, the one as a whole
and the one in parts, and how each compares with the value.
-/

namespace EntityMapping

namespace Value

/-- A document with distinct names is a map of its values. -/
theorem ofBson_rebuilt_document {document : Document} (apart : Keyed.Distinct document) :
    ofBson (Bson.document document).rebuilt =
      .map (document.map fun entry => (entry.1, ofBson entry.2.rebuilt)) := by
  have read := Decoding.document_eq apart
  rw [Meaning.document] at read
  rw [Bson.rebuilt, read, ofBson, ofEntries_eq, List.map_map]
  rfl

/-- An array is a list of its values. -/
theorem ofBson_rebuilt_array (items : List Bson) :
    ofBson (Bson.array items).rebuilt = .array (items.map fun item => ofBson item.rebuilt) := by
  rw [Bson.rebuilt, Bson.rebuiltItems_eq, ofBson, ofItems_eq, List.map_map]
  rfl

end Value

/-- What is stored for a value where anything may stand: as a whole it is the value but for the
entities, and read it is the value but for the entities in maps. -/
structure AnyBack (context : MappingContext) (value : Value) (stored : Bson) : Prop where
  /-- Entities are maps in what is stored. -/
  plain : Value.Agrees value.holdsEntity (Value.ofBson stored.rebuilt) value
  /-- Entities in maps are read as maps, and all others as entities. -/
  read : ∀ depth, stored.tokens.length ≤ depth → ∃ back,
    Yields (Meaning.value context depth .any stored) back ∧
      Value.Agrees value.entityInMap back value

namespace AnyBack

variable {context : MappingContext}

/-- A null is stored as it is where anything may stand, in a list and anywhere else. -/
theorem orNull_any (value : Value) :
    Stored.orNull value (Stored.value context value .any) = Stored.value context value .any := by
  unfold Stored.orNull
  split
  · cases value <;> simp_all [Value.isNull, Stored.value, Stored.plain, Encoding.plain?]
  · rfl

/-- What is stored for a value of a form of its own without parts stands for the value. -/
theorem plain?_back {single : Value} {stored : Bson} (known : ∀ raw, single ≠ .other raw)
    (found : Encoding.plain? single = some stored) :
    Value.ofBson stored.rebuilt = single ∧
      ∀ child, Meaning.any context child stored = pure single := by
  cases single <;> cases found <;>
    first
    | exact ⟨by simp [Bson.rebuilt, Value.ofBson], by simp [Meaning.any, Value.ofBson]⟩
    | exact absurd rfl (known _)

/-- A value without parts comes back. -/
theorem of_single {single : Value} (simple : single.isSingle = true)
    (known : ∀ raw, single ≠ .other raw)
    (number : ∀ double, single = .double double → double.isNaN = false) :
    Ensures (Stored.value context single .any) (AnyBack context single) := by
  have alike : single.Alike single := by
    cases single <;> simp_all [Value.Alike, Value.same, Binary64.same, Value.isSingle]
  obtain ⟨unheld, outside⟩ := Value.lossless_single simple
  rw [Stored.value_single simple, Stored.plain]
  cases found : Encoding.plain? single with
  | none => exact Ensures.throw
  | some stored =>
    obtain ⟨taken, read⟩ := @plain?_back context _ _ known found
    refine Ensures.pure ⟨?_, fun depth enough => ⟨single, ?_, ?_⟩⟩
    · rw [taken, unheld]
      exact .of_alike alike
    · obtain ⟨level, rfl⟩ := ReadsBack.level_of_enough enough
      rw [Meaning.value, read]
      exact Yields.pure single
    · rw [outside]
      exact .of_alike alike

/-- A list comes back where its items do. -/
theorem of_items {values : List Value}
    (each : ∀ item ∈ values, Ensures (Stored.value context item .any) (AnyBack context item)) :
    Ensures (Stored.value context (.array values) .any) (AnyBack context (.array values)) := by
  have step : ∀ item ∈ values,
      Ensures (Stored.orNull item (Stored.value context item .any)) (AnyBack context item) := by
    intro item member
    rw [orNull_any]
    exact each item member
  rw [Stored.value, Stored.items_eq]
  apply Ensures.map
  refine (ReadsBack.mapM_forall₂ step).weaken fun stored parts => ⟨?_, fun depth enough => ?_⟩
  · rw [Value.ofBson_rebuilt_array, Value.holdsEntity_array]
    refine Value.Agrees.array (List.forall₂_map_left_iff.mpr ?_)
    exact parts.flip.imp fun _ _ back => back.plain
  · obtain ⟨level, rfl⟩ := ReadsBack.level_of_enough enough
    have reads : List.Forall₂ (fun value form => ∃ back,
        Yields (Meaning.value context level .any form) back ∧
          Value.Agrees value.entityInMap back value) values stored := by
      refine List.forall₂_iff_get.mpr ⟨parts.length_eq, fun place first second => ?_⟩
      have shorter := Bson.tokens_length_item (List.get_mem stored ⟨place, second⟩)
      exact (parts.get first second).read level (by omega)
    obtain ⟨backs, known, agree⟩ := ReadsBack.mapM_readsBack reads
    refine ⟨.array backs, ?_, ?_⟩
    · rw [Meaning.value, Meaning.any]
      exact known.map Value.array
    · rw [Value.entityInMap_array]
      exact .array agree

/-- A map comes back but for the entities in it, where no document with its names is
recognised. -/
theorem of_named {values : List (String × Value)} (apart : Keyed.Distinct values)
    (unmarked : ∀ document : Document, Keyed.keys document = Keyed.keys values →
      Decoding.recognise context.mapper document = none)
    (each : ∀ entry ∈ values,
      Ensures (Stored.value context entry.2 .any) (AnyBack context entry.2)) :
    Ensures (Stored.value context (.map values) .any) (AnyBack context (.map values)) := by
  have step : ∀ entry ∈ values,
      Ensures (Stored.orNull entry.2 (Stored.value context entry.2 .any))
        (AnyBack context entry.2) := by
    intro entry member
    rw [orNull_any]
    exact each entry member
  rw [Stored.value, Stored.named_eq]
  apply Ensures.map
  refine (ReadsBack.named_forall₂ apart (by simp [Keyed.keys]) step).weaken fun stored parts => ?_
  obtain ⟨_, rfl, parts⟩ := parts
  have names := Value.keys_of_forall₂ parts
  have distinct : Keyed.Distinct stored := by
    rw [Keyed.Distinct, ← names]
    exact apart
  have plain : Value.Agrees (Value.map values).holdsEntity
      (Value.ofBson (Bson.document stored).rebuilt) (.map values) := by
    rw [Value.ofBson_rebuilt_document distinct, Value.holdsEntity_map]
    refine Value.Agrees.map apart (List.forall₂_map_left_iff.mpr ?_)
    exact parts.flip.imp fun _ _ known => ⟨known.1.symm, known.2.plain⟩
  refine ⟨plain, fun depth enough => ?_⟩
  obtain ⟨level, rfl⟩ := ReadsBack.level_of_enough enough
  refine ⟨Value.ofBson (Bson.document stored).rebuilt, ?_, ?_⟩
  · rw [Meaning.value, Meaning.any]
    rw [Decoding.recognise_document _ distinct, unmarked stored names.symm, Bson.rebuilt]
    exact Yields.pure _
  · rw [Value.entityInMap_map]
    exact plain

end AnyBack

namespace Mapper

variable {mapper : Mapper}

/-- A value for places where anything may stand. It is made of lists, of maps that leave the common
key alone, of entities in their place, and of single values that have a form of their own and
are no NaN. -/
inductive Open (mapper : Mapper) : Value → Prop where
  /-- A value without parts has a form of its own and is no NaN. -/
  | single {value : Value} (simple : value.isSingle = true) (known : ∀ raw, value ≠ .other raw)
    (number : ∀ double, value = .double double → double.isNaN = false) : Open mapper value
  /-- A list of such values. -/
  | array {items : List Value} (each : ∀ item ∈ items, Open mapper item) :
    Open mapper (.array items)
  /-- A map of such values, none of them under the common key. -/
  | map {entries : List (String × Value)} (apart : Keyed.Distinct entries)
    (unmarked : mapper.options.discriminatorKey ∉ Keyed.keys entries)
    (each : ∀ entry ∈ entries, Open mapper entry.2) : Open mapper (.map entries)
  /-- An entity that may be stored as one of its kind. -/
  | entity {kind : String} {properties : List (String × Value)}
    (regular : (Value.entity kind properties).Regular)
    (placed : mapper.Placed (.entity kind properties) (.entity kind)) :
    Open mapper (.entity kind properties)

/-- An entity that may be stored as one of its kind comes back. -/
theorem Silent.anyBack_entity (silent : mapper.Silent) (sound : mapper.Sound)
    (typed : mapper.Typed) (knows : mapper.KnowsKeys) (shares : mapper.SharesKey) {kind : String}
    {properties : List (String × Value)} (regular : (Value.entity kind properties).Regular)
    (placed : mapper.Placed (.entity kind properties) (.entity kind)) :
    Ensures (Stored.value mapper.context (.entity kind properties) .any)
      (AnyBack mapper.context (.entity kind properties)) := by
  cases regular with
  | single simple => cases simple
  | entity apart filled each =>
    cases placed with
    | single simple => cases simple
    | @entity _ _ _ model compatible found known there =>
      have reads := @ReadsBack.entity_readsBack mapper.context sound silent typed _ _ _ _ found
        (.inl rfl) apart filled known there fun entry member =>
          @Value.Regular.readsBack mapper.context sound silent typed _ (each entry member)
      have asKind : Stored.value mapper.context (.entity kind properties) .any =
          Stored.value mapper.context (.entity kind properties) (.entity kind) := by
        rw [Stored.value, Stored.value]
      intro session stored after ran
      have shapes := @Silent.any_shaped mapper model ⟨kind, properties⟩ silent sound found
      obtain ⟨document, rfl, shaped⟩ := shapes session stored after ran
      rw [asKind] at ran
      obtain ⟨-, reads⟩ := reads session _ after ran
      have member := (model?_some found).1
      have active := shares model member
      have recognised := Decoding.recognise_only (knows.listed model member _ active)
        (knows.only shares) (shaped.recogniseUnder_own sound member active)
      refine ⟨?_, fun depth enough => ?_⟩
      · rw [Value.ofBson_rebuilt_document shaped.apart, Value.holdsEntity]
        exact ⟨by simp [Value.same], by simp [Value.same]⟩
      · obtain ⟨level, rfl⟩ := ReadsBack.level_of_enough enough
        obtain ⟨back, yields, alike⟩ := reads (level + 1) enough
        refine ⟨back, ?_, by simpa [Value.entityInMap] using Value.Agrees.of_alike alike⟩
        have located : SessionM.ofExcept (mapper.context.mapper.model kind) = pure model := by
          rw [context_mapper, model_ok.mpr found]
          rfl
        rw [Meaning.value, Meaning.embedded, located, pure_bind] at yields
        rw [Meaning.value, Meaning.any, context_mapper,
          Decoding.recognise_document mapper shaped.apart, recognised]
        exact yields

/-- Everything that is stored where anything may stand comes back but for entities in maps. -/
theorem Open.anyBack {value : Value} (opened : mapper.Open value) (silent : mapper.Silent)
    (sound : mapper.Sound) (typed : mapper.Typed) (knows : mapper.KnowsKeys)
    (shares : mapper.SharesKey) :
    Ensures (Stored.value mapper.context value .any) (AnyBack mapper.context value) := by
  induction opened with
  | single simple known number => exact .of_single simple known number
  | array _ ih => exact .of_items ih
  | map apart unmarked _ ih =>
    refine .of_named apart (fun document names => ?_) ih
    refine Decoding.recognise_unmarked fun key listed => ?_
    rw [names, knows.only shares key listed]
    exact unmarked
  | entity regular placed => exact silent.anyBack_entity sound typed knows shares regular placed

/-- What is stored for a value where anything may stand is always read again. The value comes back
as an equal one exactly when no map has an entity in it; maps that are properties of entities
do not count, since these are read by their types. -/
theorem decodeAny_same_iff {plan : MapperPlan} {value : Value} {stored : Bson}
    {session later : Session} (built : plan.assemble = .ok mapper) (silent : mapper.Silent)
    (typed : mapper.Typed) (shares : mapper.SharesKey) (opened : mapper.Open value)
    (encoded : (mapper.encodeValue .any value session).1 = .ok stored) :
    ∃ back, (mapper.decodeValue .any (Reader.ofBson stored) later).1 = .ok back ∧
      (back.same value = true ↔ value.entityInMap = false) ∧
      (value.same back = true ↔ value.entityInMap = false) := by
  have sound := MapperPlan.sound_of_assemble built
  have knows := MapperPlan.knowsKeys_of_assemble built
  rw [encodeValue_eq] at encoded
  have comes := opened.anyBack silent sound typed knows shares session stored _
    (Prod.ext encoded rfl)
  obtain ⟨back, yields, forth, again⟩ := comes.read (Decoding.depthFor (Reader.ofBson stored))
    (Nat.le_add_right _ _)
  refine ⟨back, ?_, by simp [forth], by simp [again]⟩
  rw [decodeValue_eq, yields later]

/-- Points on a line. -/
def pointsOnLine : MapperPlan :=
  let point := (EntityModel.blank "Point").declare (.field (.plain "x" (.scalar .int32)))
  ⟨.standard, [point], [], []⟩

/-- A point on the line. -/
def pointAt (place : Int32) : Entity :=
  (Entity.empty "Point").set "x" (.int32 place)

/-- Points are without hooks, of known types only, and under the common key. -/
theorem pointsOnLine_plain (built : pointsOnLine.assemble = .ok mapper) :
    mapper.Silent ∧ mapper.Typed ∧ mapper.SharesKey := by
  cases built
  refine ⟨⟨rfl, fun model registered kind => ?_⟩, by decide, by decide⟩
  obtain rfl := List.mem_singleton.mp registered
  rfl

/-- A point may be stored where anything may stand. -/
theorem pointAt_open (built : pointsOnLine.assemble = .ok mapper) (place : Int32) :
    mapper.Open (.ofEntity (pointAt place)) := by
  obtain ⟨point, found, declared⟩ : ∃ point, mapper.model? "Point" = some point ∧
      "x" ∈ point.fields.map Field.name := by
    cases built
    exact ⟨_, rfl, by decide⟩
  have nowhere : mapper.Placed (.ofEntity (.empty "Point")) (.entity "Point") :=
    Placed.empty found fun name same => .inl (by simpa using same)
  exact .entity ((Value.Regular.empty "Point").set "x" (.single rfl nofun))
    (nowhere.set found declared fun _ _ _ => .single rfl _)

/-- A map of one value may be stored where anything may stand, under any name but the common
key. -/
theorem pointsOnLine_map (built : pointsOnLine.assemble = .ok mapper) {name : String}
    (other : name ≠ "_t") {value : Value} (opened : mapper.Open value) :
    mapper.Open (.map [(name, value)]) := by
  have common : mapper.options.discriminatorKey = "_t" := by
    cases built
    rfl
  refine .map (List.nodup_singleton name) ?_ fun entry member => ?_
  · rw [common]
    simpa [Keyed.keys] using other.symm
  · obtain rfl := List.mem_singleton.mp member
    exact opened

/-- A list of a point and of a map with a number comes back. -/
theorem decodeAny_same_iff_list : ∃ mapper stored back,
    let value := Value.array [.ofEntity (pointAt 3), .map [("n", .int32 1)]]
    pointsOnLine.assemble = .ok mapper ∧ mapper.Silent ∧ mapper.Typed ∧ mapper.SharesKey ∧
      mapper.Open value ∧
      (mapper.encodeValue .any value (.start fun _ => ⟨0⟩)).1 = .ok stored ∧
      (mapper.decodeValue .any (Reader.ofBson stored) (.start fun _ => ⟨0⟩)).1 = .ok back ∧
      (back.same value = true ↔ value.entityInMap = false) ∧
      (value.same back = true ↔ value.entityInMap = false) ∧ value.entityInMap = false := by
  obtain ⟨mapper, built⟩ : ∃ mapper, pointsOnLine.assemble = .ok mapper := ⟨_, rfl⟩
  obtain ⟨silent, typed, shares⟩ := pointsOnLine_plain built
  have opened : mapper.Open (.array [.ofEntity (pointAt 3), .map [("n", .int32 1)]]) := by
    refine .array fun item member => ?_
    rcases List.mem_cons.mp member with rfl | last
    · exact pointAt_open built 3
    · obtain rfl := List.mem_singleton.mp last
      exact pointsOnLine_map built (by decide) (.single rfl nofun nofun)
  have encoded : (do
      let mapper ← pointsOnLine.assemble
      (mapper.encodeValue .any (.array [.ofEntity (pointAt 3), .map [("n", .int32 1)]])
        (.start fun _ => ⟨0⟩)).1) =
      .ok (.array [.document [("_t", .string "Point"), ("x", .int32 3)],
        .document [("n", .int32 1)]]) := by decide +kernel
  rw [built] at encoded
  obtain ⟨back, decoded, forth, again⟩ :=
    decodeAny_same_iff built silent typed shares opened encoded
  exact ⟨mapper, _, back, built, silent, typed, shares, opened, encoded, decoded, forth, again,
    by decide⟩

/-- A map with a point comes back as a map with a map. -/
theorem decodeAny_point_as_map : ∃ mapper stored back,
    let value := Value.map [("a", .ofEntity (pointAt 3))]
    pointsOnLine.assemble = .ok mapper ∧ mapper.Silent ∧ mapper.Typed ∧ mapper.SharesKey ∧
      mapper.Open value ∧
      (mapper.encodeValue .any value (.start fun _ => ⟨0⟩)).1 = .ok stored ∧
      (mapper.decodeValue .any (Reader.ofBson stored) (.start fun _ => ⟨0⟩)).1 = .ok back ∧
      back = .map [("a", .map [("_t", .string "Point"), ("x", .int32 3)])] ∧
      back.same value = false := by
  obtain ⟨mapper, built⟩ : ∃ mapper, pointsOnLine.assemble = .ok mapper := ⟨_, rfl⟩
  obtain ⟨silent, typed, shares⟩ := pointsOnLine_plain built
  have opened : mapper.Open (.map [("a", .ofEntity (pointAt 3))]) :=
    pointsOnLine_map built (by decide) (pointAt_open built 3)
  have encoded : (do
      let mapper ← pointsOnLine.assemble
      (mapper.encodeValue .any (.map [("a", .ofEntity (pointAt 3))]) (.start fun _ => ⟨0⟩)).1) =
      .ok (.document [("a", .document [("_t", .string "Point"), ("x", .int32 3)])]) := by decide +kernel
  have decoded : (do
      let mapper ← pointsOnLine.assemble
      (mapper.decodeValue .any (Reader.ofBson
        (.document [("a", .document [("_t", .string "Point"), ("x", .int32 3)])]))
        (.start fun _ => ⟨0⟩)).1) =
      .ok (.map [("a", .map [("_t", .string "Point"), ("x", .int32 3)])]) := by decide +kernel
  rw [built] at encoded decoded
  exact ⟨mapper, _, _, built, silent, typed, shares, opened, encoded, decoded, rfl, by decide +kernel⟩

end Mapper

end EntityMapping
