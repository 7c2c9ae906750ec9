import EntityMapping.Decidable
import Mathlib.Data.List.TakeWhile
import EntityMapping.Proofs.Encoding.Shape
/-!
# Recognising stored entities

Where anything may stand, a document is taken for an entity when a known text is stored
under a discriminator key. The keys of the mapper are tried in their order, and only
the model that a text stands for must write its discriminator under the key that was
tried. Nothing keeps another model from storing a property under that key. So an entity
is recognised as what it is unless a key tried before its own is that of a property,
and the property holds a text that stands for a model of that key.
-/

namespace EntityMapping

namespace Decoding

/-- The model whose discriminator a document carries under a given key. -/
def recogniseUnder (mapper : Mapper) (document : Document) (key : String) :
    Option EntityModel := do
  let value ← Document.text? key document
  let name ← mapper.discriminators.lookup value
  let model ← mapper.model? name
  if model.discriminatorKey = some key then some model else none

variable {mapper : Mapper} {document : Document} {key : String} {model : EntityModel}

/-- The keys of a mapper are tried in their order. -/
theorem recognise_eq (mapper : Mapper) (document : Document) :
    recognise mapper document =
      mapper.discriminatorKeys.findSome? (recogniseUnder mapper document) := rfl

/-- A search that ends at a known place is decided before it, or there. -/
theorem findSome?_until {α β : Type} [DecidableEq α] {search : α → Option β} {items : List α}
    {place : α} {found : β} (member : place ∈ items) (ends : search place = some found) :
    items.findSome? search =
      ((items.takeWhile fun item => item ≠ place).findSome? search).or (some found) := by
  induction items with
  | nil => cases member
  | cons item rest ih =>
    by_cases here : item = place
    · simp [here, ends]
    · have later : place ∈ rest := (List.mem_cons.mp member).resolve_left (Ne.symm here)
      rw [List.takeWhile_cons_of_pos (by simpa using here), List.findSome?_cons,
        List.findSome?_cons]
      cases search item with
      | none => exact ih later
      | some other => rfl

/-- The text under a key is the one that is stored there. -/
theorem text?_eq_some {text : String} :
    Document.text? key document = some text ↔
      Keyed.get? key document = some (.string text) := by
  unfold Document.text?
  split
  · rename_i found
    simp [found]
  · rename_i other
    simpa using other text

/-- A document carries the discriminator of a model under a key when the text that is stored
there stands for the model, and the key is that of the model. -/
theorem recogniseUnder_eq_some :
    recogniseUnder mapper document key = some model ↔ ∃ text name,
      Keyed.get? key document = some (.string text) ∧
        mapper.discriminators.lookup text = some name ∧ mapper.model? name = some model ∧
          model.discriminatorKey = some key := by
  simp only [recogniseUnder, Option.bind_eq_bind, Option.bind_eq_some_iff, text?_eq_some]
  constructor
  · rintro ⟨text, stored, name, meant, found, known, chosen⟩
    split at chosen
    · rename_i same
      obtain rfl := Option.some.inj chosen
      exact ⟨text, name, stored, meant, known, same⟩
    · cases chosen
  · rintro ⟨text, name, stored, meant, known, same⟩
    exact ⟨text, stored, name, meant, model, known, if_pos same⟩

/-- A recognised model is the one that its document is read by. -/
theorem modelOfDocument_of_recogniseUnder
    (recognised : recogniseUnder mapper document key = some model) :
    modelOfDocument mapper model document = .ok model := by
  obtain ⟨text, name, stored, meant, known, own⟩ := recogniseUnder_eq_some.mp recognised
  unfold modelOfDocument EntityModel.activeKey
  split
  · rfl
  · rename_i other active
    obtain rfl : key = other := by
      split at active
      · exact Option.some.inj (own.symm.trans active)
      · cases active
    simp only [stored]
    rw [Mapper.modelForDiscriminator, meant, Option.bind_some, known]

/-- A document with distinct names is read entry by entry. -/
theorem document_eq (apart : Keyed.Distinct document) :
    Meaning.document document = document.map fun entry => (entry.1, entry.2.rebuilt) := by
  rw [Meaning.document, Bson.rebuiltEntries_eq, Keyed.ofPairs_distinct (apart.map Bson.rebuilt)]

/-- Reading a document rebuilds its values and leaves its texts. -/
theorem text?_document (apart : Keyed.Distinct document) (key : String) :
    Document.text? key (Meaning.document document) = Document.text? key document := by
  rw [Document.text?, Document.text?, document_eq apart, Keyed.get?_map]
  cases Keyed.get? key document with
  | none => rfl
  | some stored => cases stored <;> rfl

/-- A document is recognised for what is stored in it. -/
theorem recognise_document (mapper : Mapper) (apart : Keyed.Distinct document) :
    recognise mapper (Meaning.document document) = recognise mapper document := by
  have under : recogniseUnder mapper (Meaning.document document) =
      recogniseUnder mapper document := by
    funext key
    rw [recogniseUnder, text?_document apart, recogniseUnder]
  rw [recognise_eq, recognise_eq, under]

/-- A document without any of the keys is not recognised. -/
theorem recognise_unmarked
    (unmarked : ∀ key ∈ mapper.discriminatorKeys, key ∉ Keyed.keys document) :
    recognise mapper document = none := by
  rw [recognise_eq, List.findSome?_eq_none_iff]
  intro key listed
  have absent : Document.text? key document = none := by
    rw [Document.text?, Keyed.get?_eq_none (unmarked key listed)]
  rw [recogniseUnder, absent]
  rfl

/-- A document that carries a discriminator under the only key is recognised by it. -/
theorem recognise_only (listed : key ∈ mapper.discriminatorKeys)
    (only : ∀ other ∈ mapper.discriminatorKeys, other = key)
    (under : recogniseUnder mapper document key = some model) :
    recognise mapper document = some model := by
  rw [recognise_eq]
  cases keys : mapper.discriminatorKeys with
  | nil => simp [keys] at listed
  | cons first rest =>
    obtain rfl : first = key := only first (by simp [keys])
    rw [List.findSome?_cons, under]

end Decoding

namespace Stored

variable {context : MappingContext}

/-- A value without parts is stored as a text where it is that text. -/
theorem plain_text {codec : Codec} (declared : codec ≠ .any) (single : Value) :
    Ensures (plain single codec) fun stored =>
      ∀ text, stored = .string text ↔ single = .string text := by
  cases codec with
  | any => exact absurd rfl declared
  | list | map | entity => exact Ensures.throw
  | scalar type =>
    rw [plain]
    cases found : Encoding.scalar? type single with
    | none => exact Ensures.throw
    | some stored =>
      refine Ensures.pure fun text => ?_
      cases type <;> cases single <;> cases found <;> simp

/-- Only a text is stored as that text, where a type is declared. -/
theorem value_text {codec : Codec} (declared : codec ≠ .any) (subject : Value) :
    Ensures (value context subject codec) fun stored =>
      ∀ text, stored = .string text ↔ subject = .string text := by
  cases subject with
  | array values =>
    cases codec with
    | any => exact absurd rfl declared
    | list element =>
      rw [value]
      exact Ensures.map ((Ensures.trivial _).weaken fun _ _ _ => by simp)
    | _ => simp only [value]; exact Ensures.throw
  | map values =>
    cases codec with
    | any => exact absurd rfl declared
    | map element =>
      rw [value]
      exact Ensures.map ((Ensures.trivial _).weaken fun _ _ _ => by simp)
    | _ => simp only [value]; exact Ensures.throw
  | entity kind properties =>
    cases codec with
    | any => exact absurd rfl declared
    | entity name =>
      rw [value]
      refine (Ensures.trivial _).bind fun model _ => ?_
      exact Ensures.map ((Ensures.trivial _).weaken fun _ _ _ => by simp)
    | _ => simp only [value]; exact Ensures.throw
  | _ =>
    rw [value_single rfl]
    exact plain_text declared _

end Stored

namespace Mapper

variable {mapper : Mapper} {model : EntityModel} {entity : Entity} {document : Document}

/-- A key of a layout is that of the discriminator, or of a field that is written. -/
theorem mem_layout {options : Options} {key : String} (member : key ∈ model.layout options entity) :
    model.activeKey = some key ∨ ∃ field ∈ model.fields, field.documentName = key ∧
      field.isWritten (entity.valueOf field.name) options = true := by
  have written : ∀ fields : List Field, (∀ field ∈ fields, field ∈ model.fields) →
      key ∈ (options.written entity fields).map Field.documentName →
        ∃ field ∈ model.fields, field.documentName = key ∧
          field.isWritten (entity.valueOf field.name) options = true := by
    intro fields among known
    obtain ⟨field, kept, same⟩ := List.mem_map.mp known
    obtain ⟨listed, counts⟩ := List.mem_filter.mp kept
    exact ⟨field, among field listed, same, counts⟩
  rcases List.mem_append.mp member with front | last
  · rcases List.mem_append.mp front with first | mark
    · refine .inr (written _ (fun field identity => ?_) first)
      exact List.mem_of_find?_eq_some (by simpa [EntityModel.idField] using identity)
    · exact .inl (by simpa using mark)
  · exact .inr (written _ (fun field other => (List.mem_filter.mp other).1) last)

/-- The texts in the document of an entity without fields of any type are its discriminator and
its properties that are texts. -/
theorem Shaped.text_iff (shaped : mapper.Shaped model entity document)
    (declared : ∀ field ∈ model.fields, field.resolved ≠ .ok .any) {key : String}
    (other : model.activeKey ≠ some key) {text : String} :
    Keyed.get? key document = some (.string text) ↔
      ∃ field ∈ model.fields, field.documentName = key ∧
        entity.valueOf field.name = .string text := by
  have stores : ∀ field ∈ model.fields, ∀ content, mapper.StoresField entity field content →
      (content = .string text ↔ entity.valueOf field.name = .string text) := by
    intro field member content stores
    unfold StoresField at stores
    split at stores
    · rename_i absent
      rw [stores]
      cases value : entity.valueOf field.name <;> simp [value, Value.isNull] at absent ⊢
    · obtain ⟨codec, resolved, written⟩ := stores
      have typed : codec ≠ .any := fun same => declared field member (same ▸ resolved)
      have encoded := written (.start fun _ => ⟨0⟩)
      rw [encodeValue_eq] at encoded
      exact Stored.value_text typed _ _ _ _ encoded text
  constructor
  · intro found
    have known : key ∈ Keyed.keys document := Keyed.get?_isSome.mp (by rw [found]; rfl)
    rw [shaped.order] at known
    obtain ⟨field, member, same, written⟩ := (mem_layout known).resolve_left other
    obtain ⟨content, located, holds⟩ := shaped.stored field member written
    rw [same, found] at located
    exact ⟨field, member, same, (stores field member content holds).mp
      (Option.some.inj located).symm⟩
  · rintro ⟨field, member, same, value⟩
    have written : field.isWritten (entity.valueOf field.name) mapper.options = true := by
      simp [value, Field.isWritten, Value.isNull, Value.isEmptyCollection]
    obtain ⟨content, located, holds⟩ := shaped.stored field member written
    rw [← same, located, (stores field member content holds).mpr value]

/-- An entity may be mistaken: under a key that is tried before its own it stores a text that
stands for a model of that key. -/
def Mistaken (mapper : Mapper) (model : EntityModel) (entity : Entity) : Prop :=
  ∃ own, model.activeKey = some own ∧
    ∃ key ∈ mapper.discriminatorKeys.takeWhile (fun key => key ≠ own),
      ∃ field ∈ model.fields, field.documentName = key ∧
        ∃ text name other, entity.valueOf field.name = .string text ∧
          mapper.discriminators.lookup text = some name ∧ mapper.model? name = some other ∧
            other.discriminatorKey = some key

/-- An entity may be mistaken when its document is recognised under a key tried before its own. -/
theorem Shaped.mistaken_iff (shaped : mapper.Shaped model entity document)
    (declared : ∀ field ∈ model.fields, field.resolved ≠ .ok .any) {own : String}
    (active : model.activeKey = some own) :
    mapper.Mistaken model entity ↔
      ∃ key ∈ mapper.discriminatorKeys.takeWhile (fun key => key ≠ own), ∃ other,
        Decoding.recogniseUnder mapper document key = some other := by
  have elsewhere : ∀ key ∈ mapper.discriminatorKeys.takeWhile (fun key => key ≠ own),
      model.activeKey ≠ some key := by
    intro key earlier same
    have different := List.mem_takeWhile_imp earlier
    have equal : own = key := Option.some.inj (active.symm.trans same)
    simp [equal] at different
  constructor
  · rintro ⟨own', active', key, earlier, field, member, named, text, name, other, value, meant,
      known, keyed⟩
    obtain rfl := Option.some.inj (active.symm.trans active')
    have found := (shaped.text_iff declared (elsewhere key earlier)).mpr
      ⟨field, member, named, value⟩
    exact ⟨key, earlier, other,
      Decoding.recogniseUnder_eq_some.mpr ⟨text, name, found, meant, known, keyed⟩⟩
  · rintro ⟨key, earlier, other, recognised⟩
    obtain ⟨text, name, found, meant, known, keyed⟩ :=
      Decoding.recogniseUnder_eq_some.mp recognised
    obtain ⟨field, member, named, value⟩ :=
      (shaped.text_iff declared (elsewhere key earlier)).mp found
    exact ⟨own, active, key, earlier, field, member, named, text, name, other, value, meant,
      known, keyed⟩

/-- The document of an entity carries the discriminator of its model under the key of the
model. -/
theorem Shaped.recogniseUnder_own (shaped : mapper.Shaped model entity document)
    (sound : mapper.Sound) (member : model ∈ mapper.models) {own : String}
    (active : model.activeKey = some own) :
    Decoding.recogniseUnder mapper document own = some model := by
  obtain ⟨used, keyed⟩ : model.usesDiscriminator = true ∧ model.discriminatorKey = some own := by
    unfold EntityModel.activeKey at active
    split at active
    · rename_i used
      exact ⟨used, active⟩
    · cases active
  exact Decoding.recogniseUnder_eq_some.mpr ⟨model.discriminator, model.name,
    shaped.marked own active, sound.marked model member used, sound.model?_of_mem member, keyed⟩

/-- The document of an entity is recognised, as the model of the entity unless it may be
mistaken. -/
theorem Shaped.recognised (shaped : mapper.Shaped model entity document) (sound : mapper.Sound)
    (knows : mapper.KnowsKeys) (member : model ∈ mapper.models)
    (used : model.usesDiscriminator = true)
    (declared : ∀ field ∈ model.fields, field.resolved ≠ .ok .any) :
    ∃ other key, Decoding.recognise mapper document = some other ∧
      Decoding.recogniseUnder mapper document key = some other ∧
        (other = model ↔ ¬ mapper.Mistaken model entity) := by
  obtain ⟨own, active⟩ := knows.activeKey member used
  have mistaken := shaped.mistaken_iff declared active
  have under := shaped.recogniseUnder_own sound member active
  have decided := Decoding.findSome?_until (knows.listed model member own active) under
  rw [← Decoding.recognise_eq] at decided
  cases earlier : (mapper.discriminatorKeys.takeWhile fun key => key ≠ own).findSome?
      (Decoding.recogniseUnder mapper document) with
  | none =>
    rw [earlier, Option.none_or] at decided
    refine ⟨model, own, decided, under, fun _ wrong => ?_, fun _ => rfl⟩
    obtain ⟨key, before, other, carries⟩ := mistaken.mp wrong
    rw [List.findSome?_eq_none_iff.mp earlier key before] at carries
    cases carries
  | some other =>
    obtain ⟨key, before, carries⟩ := List.exists_of_findSome?_eq_some earlier
    rw [earlier, Option.some_or] at decided
    have wrong := mistaken.mpr ⟨key, before, other, carries⟩
    refine ⟨other, key, decided, carries, fun same => ?_, fun right => absurd wrong right⟩
    -- One model cannot write its discriminator under both keys.
    obtain ⟨text, name, -, -, -, keyed⟩ := Decoding.recogniseUnder_eq_some.mp carries
    subst same
    have different := List.mem_takeWhile_imp before
    rw [EntityModel.activeKey, if_pos used, keyed] at active
    simp [Option.some.inj active] at different

/-- An entity read where anything may stand is of the model that its document is recognised as. -/
theorem Silent.any_kind (silent : mapper.Silent) (apart : Keyed.Distinct document)
    {key : String} (recognised : Decoding.recognise mapper document = some model)
    (under : Decoding.recogniseUnder mapper document key = some model) (depth : Nat) :
    Ensures (Meaning.value mapper.context (depth + 1) .any (.document document)) fun value =>
      ∃ back, value = .ofEntity back ∧ back.kind = model.name := by
  have registered := Meaning.recognise_registered recognised
  have chosen := Decoding.modelOfDocument_of_recogniseUnder under
  rw [Meaning.value, Meaning.any]
  simp only [context_mapper]
  rw [Decoding.recognise_document mapper apart, recognised]
  dsimp only
  apply Ensures.map
  rw [@Silent.entity mapper.context model silent registered, context_mapper, chosen]
  exact (Meaning.properties_kind model document).weaken fun back kind => ⟨back, rfl, kind⟩

/-- Where anything may stand, an entity is stored by the fields of its model. -/
theorem Silent.any_stored (silent : mapper.Silent)
    (found : mapper.model? entity.kind = some model) :
    Stored.value mapper.context (.ofEntity entity) .any =
      Bson.document <$> Stored.entries mapper.options model
        (Stored.forms mapper.context entity.properties) [] := by
  obtain ⟨registered, named⟩ := model?_some found
  have form := @Silent.ofModel mapper.context model silent registered entity
    (Stored.forms mapper.context entity.properties)
  have located : SessionM.ofExcept (mapper.context.mapper.model entity.kind) = pure model := by
    rw [context_mapper, model_ok.mpr found]
    rfl
  rw [Value.ofEntity, Stored.value, located, pure_bind, Stored.entity,
    Encoding.modelFor_eq_ite, if_pos named]
  exact congrArg (Bson.document <$> ·) form

/-- Where anything may stand, an entity is stored in a document of its shape. -/
theorem Silent.any_shaped (silent : mapper.Silent) (sound : mapper.Sound)
    (found : mapper.model? entity.kind = some model) :
    Ensures (Stored.value mapper.context (.ofEntity entity) .any) fun stored =>
      ∃ document, stored = .document document ∧ mapper.Shaped model entity document := by
  have shapes := @Silent.entries_shaped mapper model entity silent
    (sound.checked model (model?_some found).1)
  rw [silent.any_stored found]
  exact Ensures.map (shapes.weaken fun document shaped => ⟨document, rfl, shaped⟩)

/-- No field of a model that lets nothing but values of known types in has the codec for any. -/
theorem Registered.resolved_ne_any (registered : mapper.Registered) (member : model ∈ mapper.models)
    (declared : ∀ field ∈ model.fields, field.type ≠ .any) :
    ∀ field ∈ model.fields, field.resolved ≠ .ok .any := by
  intro field known resolved
  obtain ⟨codec, assigned, coded⟩ := registered.resolved model member field known
  rw [Field.resolved, assigned] at resolved
  obtain rfl := Except.ok.inj resolved
  exact declared field known (Registry.fieldType_codec coded).symm

/-- An entity that is stored where anything may stand comes back, if it does, as an entity. It is
of the same kind exactly when no property of it stands under a discriminator key that is tried
earlier and holds a text that stands for a model of that key. -/
theorem decodeAny_kind_iff {plan : MapperPlan} {stored : Bson} {session later : Session}
    {value : Value} (built : plan.assemble = .ok mapper) (silent : mapper.Silent)
    (found : mapper.model? entity.kind = some model) (used : model.usesDiscriminator = true)
    (declared : ∀ field ∈ model.fields, field.type ≠ .any)
    (encoded : (mapper.encodeValue .any (.ofEntity entity) session).1 = .ok stored)
    (decoded : (mapper.decodeValue .any (Reader.ofBson stored) later).1 = .ok value) :
    ∃ back, value = .ofEntity back ∧
      (back.kind = entity.kind ↔ ¬ mapper.Mistaken model entity) := by
  have sound := MapperPlan.sound_of_assemble built
  have knows := MapperPlan.knowsKeys_of_assemble built
  obtain ⟨member, named⟩ := model?_some found
  rw [encodeValue_eq] at encoded
  obtain ⟨document, rfl, shaped⟩ :=
    silent.any_shaped sound found session stored _ (Prod.ext encoded rfl)
  obtain ⟨other, key, recognised, under, exactly⟩ :=
    shaped.recognised sound knows member used (sound.resolved_ne_any member declared)
  obtain ⟨depth, deep⟩ : ∃ depth, Decoding.depthFor (Reader.ofBson (.document document)) =
      depth + 1 := Nat.exists_eq_add_one.mpr
    (Nat.lt_of_lt_of_le (Bson.tokens_length_pos _) (Nat.le_add_right _ _))
  rw [decodeValue_eq, deep] at decoded
  obtain ⟨back, rfl, kind⟩ :=
    silent.any_kind shaped.apart recognised under depth later value _ (Prod.ext decoded rfl)
  refine ⟨back, rfl, ?_⟩
  rw [← exactly, kind, ← named]
  constructor
  · intro same
    have registered := sound.model?_of_mem (Meaning.recognise_registered recognised)
    rw [same, named, found] at registered
    exact (Option.some.inj registered).symm
  · intro same
    rw [same]

/-- Points under the common key, and circles under a key of their own, which have a label that
is stored where points store their discriminator. -/
def pointsAndCircles : MapperPlan :=
  let circle := (EntityModel.blank "Circle").declare (.discriminatorKey "shape")
  let label := (Field.plain "label" (.scalar .string)).storedAs "_t"
  ⟨.standard, [.blank "Point", { circle with fields := [label] }], [], []⟩

/-- A circle with a label. -/
def labelledCircle (label : String) : Entity :=
  (Entity.empty "Circle").set "label" (.string label)

/-- Points and circles are without hooks. -/
theorem pointsAndCircles_silent (built : pointsAndCircles.assemble = .ok mapper) :
    mapper.Silent := by
  cases built
  refine ⟨rfl, fun model registered kind => ?_⟩
  rcases List.mem_cons.mp registered with rfl | last
  · rfl
  · obtain rfl := List.mem_singleton.mp last
    rfl

/-- Circles use discriminators, and their label is a text. -/
theorem pointsAndCircles_circle (built : pointsAndCircles.assemble = .ok mapper) :
    ∃ circle, mapper.model? "Circle" = some circle ∧ circle.usesDiscriminator = true ∧
      ∀ field ∈ circle.fields, field.type ≠ .any := by
  cases built
  exact ⟨_, rfl, rfl, by decide⟩

/-- A circle whose label stands for nothing comes back as a circle. -/
theorem decodeAny_kind_iff_circle : ∃ mapper circle stored value back,
    pointsAndCircles.assemble = .ok mapper ∧ mapper.Silent ∧
      mapper.model? "Circle" = some circle ∧ circle.usesDiscriminator = true ∧
      (∀ field ∈ circle.fields, field.type ≠ .any) ∧
      (mapper.encodeValue .any (.ofEntity (labelledCircle "round")) (.start fun _ => ⟨0⟩)).1 =
        .ok stored ∧
      (mapper.decodeValue .any (Reader.ofBson stored) (.start fun _ => ⟨0⟩)).1 = .ok value ∧
      value = .ofEntity back ∧
      (back.kind = "Circle" ↔ ¬ mapper.Mistaken circle (labelledCircle "round")) := by
  obtain ⟨mapper, built⟩ : ∃ mapper, pointsAndCircles.assemble = .ok mapper := ⟨_, rfl⟩
  have silent := pointsAndCircles_silent built
  obtain ⟨circle, found, used, declared⟩ := pointsAndCircles_circle built
  have encoded : (do
      let mapper ← pointsAndCircles.assemble
      (mapper.encodeValue .any (.ofEntity (labelledCircle "round")) (.start fun _ => ⟨0⟩)).1) =
      .ok (.document [("shape", .string "Circle"), ("_t", .string "round")]) := by decide +kernel
  have decoded : (do
      let mapper ← pointsAndCircles.assemble
      (mapper.decodeValue .any (Reader.ofBson
        (.document [("shape", .string "Circle"), ("_t", .string "round")]))
        (.start fun _ => ⟨0⟩)).1) = .ok (.ofEntity (labelledCircle "round")) := by decide +kernel
  rw [built] at encoded decoded
  obtain ⟨back, same, exactly⟩ :=
    decodeAny_kind_iff built silent found used declared encoded decoded
  exact ⟨mapper, circle, _, _, back, built, silent, found, used, declared, encoded, decoded, same,
    exactly⟩

/-- A circle whose label is the discriminator of points comes back as a point. -/
theorem decodeAny_circle_as_point : ∃ mapper circle stored back,
    pointsAndCircles.assemble = .ok mapper ∧ mapper.Silent ∧
      mapper.model? "Circle" = some circle ∧ circle.usesDiscriminator = true ∧
      (∀ field ∈ circle.fields, field.type ≠ .any) ∧
      (mapper.encodeValue .any (.ofEntity (labelledCircle "Point")) (.start fun _ => ⟨0⟩)).1 =
        .ok stored ∧
      (mapper.decodeValue .any (Reader.ofBson stored) (.start fun _ => ⟨0⟩)).1 =
        .ok (.ofEntity back) ∧
      back.kind ≠ "Circle" := by
  obtain ⟨mapper, built⟩ : ∃ mapper, pointsAndCircles.assemble = .ok mapper := ⟨_, rfl⟩
  have silent := pointsAndCircles_silent built
  obtain ⟨circle, found, used, declared⟩ := pointsAndCircles_circle built
  have encoded : (do
      let mapper ← pointsAndCircles.assemble
      (mapper.encodeValue .any (.ofEntity (labelledCircle "Point")) (.start fun _ => ⟨0⟩)).1) =
      .ok (.document [("shape", .string "Circle"), ("_t", .string "Point")]) := by decide +kernel
  have decoded : (do
      let mapper ← pointsAndCircles.assemble
      (mapper.decodeValue .any (Reader.ofBson
        (.document [("shape", .string "Circle"), ("_t", .string "Point")]))
        (.start fun _ => ⟨0⟩)).1) = .ok (.ofEntity (.empty "Point")) := by decide +kernel
  rw [built] at encoded decoded
  exact ⟨mapper, circle, _, _, built, silent, found, used, declared, encoded, decoded, by decide⟩

end Mapper

end EntityMapping
