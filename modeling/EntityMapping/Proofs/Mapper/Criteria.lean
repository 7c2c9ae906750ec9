import EntityMapping.Decidable
import EntityMapping.Proofs.Mapper.ReadBack
import EntityMapping.Proofs.Mapper.Recognition
import EntityMapping.Proofs.Mapper.Translation
import EntityMapping.Proofs.Value.Following
/-!
# Criteria meet what is stored

A criterion names a property by a path, which is translated by the types of fields. A document is
written by codecs, from the values as they are. Both rename properties, each in its own way, and
they agree: the translation of a path reaches in a document just what the path reaches in the
entity, in its stored form and in the same order, but for properties that are left out.
-/

namespace EntityMapping

/-- The codec within lists. -/
def Codec.item : Codec → Codec
  | .list element => item element
  | codec => codec

/-- The codec within lists is for the type within lists. -/
theorem Registry.codec_item {registry : Registry} {type : FieldType} {codec : Codec}
    (found : registry.codec type = .ok codec) : registry.codec type.item = .ok codec.item := by
  induction type generalizing codec with
  | list element ih =>
    obtain ⟨inner, known, rfl⟩ := ok_of_map found
    have within := ih known
    exact within
  | map value =>
    obtain ⟨inner, known, rfl⟩ := ok_of_map found
    exact found
  | scalar => cases found; rfl
  | any => cases found; rfl
  | entity name =>
    have known := Registry.fieldType_codec found
    cases codec <;> first | cases known; exact found | cases known

namespace Mapper

variable {mapper : Mapper}

/-- A codec stores a value as a content, and null as null. -/
def Stores (mapper : Mapper) (codec : Codec) (value : Value) (content : Bson) : Prop :=
  Yields (Stored.orNull value (Stored.value mapper.context value codec)) content

/-- Null is stored as null. -/
theorem Stores.null (codec : Codec) : mapper.Stores codec .null .null := Yields.pure Bson.null

/-- What is stored is null, or what the codec gives for the value. -/
theorem Stores.holds {codec : Codec} {value : Value} {content : Bson} {goal : Bson → Prop}
    (stores : mapper.Stores codec value content)
    (always : Ensures (Stored.value mapper.context value codec) goal) :
    (value = .null ∧ content = .null) ∨ goal content := by
  have known : Ensures (Stored.orNull value (Stored.value mapper.context value codec))
      fun content => (value = .null ∧ content = .null) ∨ goal content := by
    unfold Stored.orNull
    split
    · rename_i null
      have nothing : value = .null := by cases value <;> first | rfl | cases null
      exact Ensures.pure (.inl ⟨nothing, rfl⟩)
    · exact always.weaken fun content found => .inr found
  exact Yields.holds stores known (.start fun _ => ⟨0⟩)

namespace Silent

variable {value : Value} {content : Bson}

/-- What is given for a value or null by a codec is what the codec stores. -/
theorem ensures_stores (silent : mapper.Silent) (codec : Codec) (value : Value) :
    Ensures (Stored.orNull value (Stored.value mapper.context value codec))
      (mapper.Stores codec value) :=
  (Stored.orNull_steady value (@value_steady mapper.context silent value codec)).ensures

/-- A codec for lists gives something for lists alone: their items one by one. -/
theorem list_stores (silent : mapper.Silent) (element : Codec) (value : Value) :
    Ensures (Stored.value mapper.context value (.list element)) fun content =>
      ∃ items stored, value = .array items ∧ content = .array stored ∧
        List.Forall₂ (mapper.Stores element) items stored := by
  cases value with
  | array items =>
    rw [Stored.value, Stored.items_eq]
    refine Ensures.map ((ReadsBack.mapM_forall₂ fun item _ =>
      silent.ensures_stores element item).weaken fun stored parts => ?_)
    exact ⟨items, stored, rfl, rfl, parts⟩
  | _ =>
    simp only [Stored.value, Stored.plain]
    exact Ensures.throw

/-- A codec for maps gives something for maps alone: where names are distinct, their entries one
by one under the same names. -/
theorem map_stores (silent : mapper.Silent) (inner : Codec) (value : Value) :
    Ensures (Stored.value mapper.context value (.map inner)) fun content =>
      ∃ entries stored, value = .map entries ∧ content = .document stored ∧
        (Keyed.Distinct entries → List.Forall₂
          (fun one other => one.1 = other.1 ∧ mapper.Stores inner one.2 other.2)
          entries stored) := by
  cases value with
  | map entries =>
    rw [Stored.value, Stored.named_eq]
    apply Ensures.map
    by_cases distinct : Keyed.Distinct entries
    · refine (ReadsBack.named_forall₂ distinct (by simp [Keyed.keys]) fun entry _ =>
        silent.ensures_stores inner entry.2).weaken fun stored walked => ?_
      obtain ⟨added, rfl, parts⟩ := walked
      exact ⟨entries, _, rfl, rfl, fun _ => parts⟩
    · exact (Ensures.trivial _).weaken fun stored _ =>
        ⟨entries, stored, rfl, rfl, fun apart => absurd apart distinct⟩
  | _ =>
    simp only [Stored.value, Stored.plain]
    exact Ensures.throw

/-- A codec for entities gives something for entities alone: a document of the shape of their
kind. -/
theorem entity_stores (silent : mapper.Silent) (sound : mapper.Sound) (name : String)
    (value : Value) :
    Ensures (Stored.value mapper.context value (.entity name)) fun content =>
      ∃ kind properties document model, value = .entity kind properties ∧
        content = .document document ∧ mapper.model? kind = some model ∧
        mapper.Shaped model ⟨kind, properties⟩ document := by
  cases value with
  | entity kind properties =>
    rw [Stored.value]
    refine (SessionM.ensures_ofExcept _).bind fun declared located => ?_
    apply Ensures.map
    refine (SessionM.ensures_ofExcept _).bind fun model chosen => ?_
    have found : mapper.model? kind = some model := by
      rw [Encoding.modelFor_eq_ite] at chosen
      split at chosen
      · rename_i same
        obtain rfl := Except.ok.inj chosen
        have known := model_ok.mp located
        rwa [← (model?_some known).2, same] at known
      · exact model_ok.mp chosen
    have registered := (model?_some found).1
    have shaped := @Silent.entries_shaped mapper model ⟨kind, properties⟩ silent
      (sound.checked model registered)
    have form := @Silent.ofModel mapper.context model silent registered ⟨kind, properties⟩
      (Stored.forms mapper.context properties)
    rw [form]
    exact shaped.weaken fun document shaped =>
      ⟨kind, properties, document, model, rfl, rfl, found, shaped⟩
  | _ =>
    simp only [Stored.value, Stored.plain]
    exact Ensures.throw

/-- What a codec for entities stores is no list, nor is its value. -/
theorem entity_alone (silent : mapper.Silent) (sound : mapper.Sound) {name : String}
    {value : Value} {content : Bson} (stores : mapper.Stores (.entity name) value content) :
    value.spread = [value] ∧ content.spread = [content] := by
  rcases stores.holds (silent.entity_stores sound name value) with
    ⟨rfl, rfl⟩ | ⟨kind, properties, document, model, rfl, rfl, -⟩ <;> exact ⟨rfl, rfl⟩

/-- What a codec for maps stores is no list, nor is its value. -/
theorem map_alone (silent : mapper.Silent) {inner : Codec} {value : Value} {content : Bson}
    (stores : mapper.Stores (.map inner) value content) :
    value.spread = [value] ∧ content.spread = [content] := by
  rcases stores.holds (silent.map_stores inner value) with
    ⟨rfl, rfl⟩ | ⟨entries, stored, rfl, rfl, -⟩ <;> exact ⟨rfl, rfl⟩

/-- Where nothing that the codec within lists stores is a list, a stored value stands on a path for
what its value stands for, each stored by that codec. -/
theorem spread_stores (silent : mapper.Silent) {codec : Codec}
    (alone : ∀ {value content}, mapper.Stores codec.item value content →
      value.spread = [value] ∧ content.spread = [content])
    {value : Value} {content : Bson} (stores : mapper.Stores codec value content) :
    List.Forall₂ (mapper.Stores codec.item) value.spread content.spread := by
  have single : ∀ {value content}, mapper.Stores codec.item value content →
      List.Forall₂ (mapper.Stores codec.item) value.spread content.spread := by
    intro value content known
    obtain ⟨one, other⟩ := alone known
    rw [one, other]
    exact .cons known .nil
  induction codec generalizing value content with
  | list element ih =>
    rcases stores.holds (silent.list_stores element value) with
      ⟨rfl, rfl⟩ | ⟨items, stored, rfl, rfl, parts⟩
    · exact single (Stores.null _)
    · rw [Value.spread_array, Bson.spread_array]
      exact List.rel_flatMap parts fun _ _ known => ih alone known single
  | _ => exact single stores

end Silent

/-- What is stored for a field is what its codec stores. -/
theorem StoresField.stores {entity : Entity} {field : Field} {content : Bson} {codec : Codec}
    (stores : mapper.StoresField entity field content) (resolved : field.resolved = .ok codec) :
    mapper.Stores codec (entity.valueOf field.name) content := by
  unfold StoresField at stores
  unfold Stores Stored.orNull
  split at stores
  · rename_i null
    rw [if_pos null, stores]
    exact Yields.pure Bson.null
  · rename_i filled
    obtain ⟨own, known, encodes⟩ := stores
    obtain rfl := Except.ok.inj (resolved.symm.trans known)
    rw [if_neg filled]
    exact fun session => (encodeValue_eq mapper codec _ session).symm.trans (encodes session)

/-- Before the end of a path, every entity that is met is of the kind declared there. -/
def Exact (mapper : Mapper) (place : Place) (path : List String) (value : Value) : Prop :=
  ∀ before rest, path = before ++ rest → rest ≠ [] → ∀ last kind, mapper.Leads place before last →
    last.type.item = .entity kind → ∀ reached ∈ value.follow before, ∀ actual properties,
      .entity actual properties ∈ reached.spread → actual = kind

/-- Nothing is met before the end of no path. -/
theorem exact_nil (place : Place) (value : Value) : mapper.Exact place [] value :=
  fun _ _ same more => absurd (List.append_eq_nil_iff.mp same.symm).2 more

/-- The kinds before the end of a path are those met first, and those met from the parts on. -/
theorem exact_cons {place : Place} {segment : String} {path : List String} {value : Value} :
    mapper.Exact place (segment :: path) value ↔
      (∀ kind, place.type.item = .entity kind → ∀ actual properties,
        .entity actual properties ∈ value.spread → actual = kind) ∧
      ∀ next, mapper.Leads place [segment] next → ∀ one ∈ value.spread, ∀ found,
        one.part segment = some found → mapper.Exact next path found := by
  constructor
  · intro precise
    refine ⟨fun kind inside => ?_, fun next leads one member found picked => ?_⟩
    · exact precise [] _ rfl (by simp) place kind (.here place) inside value
        (List.mem_singleton_self value)
    · intro before rest same more last kind onward inside reached met
      refine precise (segment :: before) rest (by rw [same]; rfl) more last kind
        (leads_cons.mpr ⟨next, leads, onward⟩) inside reached ?_
      exact List.mem_flatMap.mpr ⟨one, member, List.mem_flatMap.mpr ⟨found, by simp [picked], met⟩⟩
  · rintro ⟨first, later⟩ before rest same more last kind leads inside reached met
    cases before with
    | nil =>
      cases leads
      obtain rfl := List.mem_singleton.mp met
      exact first kind inside
    | cons name before =>
      obtain ⟨rfl, onwards⟩ := List.cons.inj same
      obtain ⟨next, leads, onward⟩ := leads_cons.mp leads
      obtain ⟨one, member, met⟩ := List.mem_flatMap.mp met
      obtain ⟨found, picked, met⟩ := List.mem_flatMap.mp met
      exact later next leads one member found (by simpa using picked) before rest onwards more
        last kind onward inside reached met

/-- Only values without content are left out. -/
theorem Place.nothing_of_left {place : Place} {options : Options} {value : Value}
    (left : place.isWritten options value = false) :
    value.isNull = true ∨ value.isEmptyCollection = true := by
  cases place with
  | property field =>
    have left : field.isWritten value options = false := left
    unfold Field.isWritten at left
    by_contra! filled
    simp [filled] at left
  | top | entry => cases left

/-- Nothing that is written is reached through what is left out. -/
theorem Leads.left_out {place last : Place} {path : List String}
    (leads : mapper.Leads place path last) {value : Value}
    (left : place.isWritten mapper.options value = false) :
    (value.follow path).filter (fun found => last.isWritten mapper.options found) = [] := by
  cases leads with
  | here => simp [Value.follow, Path.follow, left]
  | property | entry => rw [Value.follow_nothing (Place.nothing_of_left left), List.filter_nil]

/-- A segment reaches alike in a value and in what is stored where it does so in all that they
stand for. -/
theorem forall₂_follow {stands related : Value → Bson → Prop} {written : Value → Bool}
    {segment key : String} {path keys : List String} {value : Value} {content : Bson}
    (spreads : List.Forall₂ stands value.spread content.spread)
    (each : ∀ one ∈ value.spread, ∀ stored, stands one stored → List.Forall₂ related
      (((one.part segment).toList.flatMap (Value.follow path)).filter written)
      ((stored.part key).toList.flatMap (Bson.follow keys))) :
    List.Forall₂ related ((value.follow (segment :: path)).filter written)
      (content.follow (key :: keys)) := by
  have among := (List.forall₂_and_left _ _).mpr ⟨fun one member => member, spreads⟩
  change List.Forall₂ related ((value.spread.flatMap _).filter written) (content.spread.flatMap _)
  rw [List.filter_flatMap]
  exact List.rel_flatMap among fun one stored known => each one known.1 stored known.2

/-- What is stored for a part of a value, if the part is written where it stands. -/
inductive Picks (mapper : Mapper) (place : Place) (codec : Codec) :
    Option Value → Option Bson → Prop where
  /-- There is no part. -/
  | nothing : Picks mapper place codec none none
  /-- The part is left out. -/
  | left {value : Value} (left : place.isWritten mapper.options value = false) :
    Picks mapper place codec (some value) none
  /-- The part is stored by its codec. -/
  | stored {value : Value} {content : Bson} (written : place.isWritten mapper.options value = true)
    (stores : mapper.Stores codec value content) :
    Picks mapper place codec (some value) (some content)

/-- In the document of an entity, a property is found under the key of its field. -/
theorem Shaped.picks {model : EntityModel} {entity : Entity} {document : Document} {field : Field}
    {codec : Codec} (checked : model.Checked) (shaped : mapper.Shaped model entity document)
    (declared : field ∈ model.fields) (resolved : field.resolved = .ok codec) :
    mapper.Picks (.property field) codec (some (entity.valueOf field.name))
      (Keyed.get? field.documentName document) := by
  cases written : field.isWritten (entity.valueOf field.name) mapper.options with
  | true =>
    obtain ⟨content, located, stores⟩ := shaped.stored field declared written
    rw [located]
    exact .stored written (stores.stores resolved)
  | false =>
    have missing : field.documentName ∉ Keyed.keys document := by
      rw [shaped.order]
      intro member
      rcases mem_layout member with active | ⟨other, known, same, counts⟩
      · exact checked.keyFree _ active (List.mem_map_of_mem declared)
      · obtain rfl := List.inj_on_of_nodup_map checked.storedApart known declared same
        rw [written] at counts
        cases counts
    rw [Keyed.get?_eq_none missing]
    exact .left written

/-- Under a key of a map its entry is found. -/
theorem picks_entry {type : FieldType} {codec : Codec} {entries : List (String × Value)}
    {stored : Document} (parts : List.Forall₂
      (fun one other => one.1 = other.1 ∧ mapper.Stores codec one.2 other.2) entries stored)
    (key : String) :
    mapper.Picks (.entry type) codec (Keyed.get? key entries) (Keyed.get? key stored) := by
  induction parts with
  | nil => exact .nothing
  | @cons one other entries stored first rest ih =>
    obtain ⟨name, value⟩ := one
    obtain ⟨named, content⟩ := other
    obtain ⟨rfl, stores⟩ : name = named ∧ mapper.Stores codec value content := first
    rw [Keyed.get?, Keyed.get?]
    split
    · exact .stored rfl stores
    · exact ih

/-- What is stored for an entity of a kind holds its properties under the keys of their fields. -/
theorem Silent.picks_property (silent : mapper.Silent) (sound : mapper.Sound) {kind : String}
    {model : EntityModel} {field : Field} {codec : Codec} {value : Value} {content : Bson}
    (found : mapper.model? kind = some model) (declared : field ∈ model.fields)
    (resolved : field.resolved = .ok codec) (stores : mapper.Stores (.entity kind) value content)
    (alike : ∀ actual properties, value = .entity actual properties → actual = kind) :
    mapper.Picks (.property field) codec (value.part field.name)
      (content.part field.documentName) := by
  rcases stores.holds (silent.entity_stores sound kind value) with
    ⟨rfl, rfl⟩ | ⟨actual, properties, document, owner, rfl, rfl, located, shaped⟩
  · exact .nothing
  · obtain rfl := alike actual properties rfl
    obtain rfl := Option.some.inj (found.symm.trans located)
    exact shaped.picks (sound.checked model (model?_some found).1) declared resolved

/-- What is stored for a map holds its entries under their keys. -/
theorem Silent.picks_key (silent : mapper.Silent) {type : FieldType} {codec : Codec} {value : Value}
    {content : Bson} (stores : mapper.Stores (.map codec) value content)
    (apart : value.MapsApart) (key : String) :
    mapper.Picks (.entry type) codec (value.part key) (content.part key) := by
  rcases stores.holds (silent.map_stores codec value) with
    ⟨rfl, rfl⟩ | ⟨entries, document, rfl, rfl, parts⟩
  · exact .nothing
  · exact picks_entry (parts apart.distinct) key

/-- Picking a part and going on from there reaches alike, where what follows does. -/
theorem Picks.follow {next last : Place} {codec inner : Codec} {part : Option Value}
    {stored : Option Bson} {path keys : List String}
    (picks : mapper.Picks next codec part stored) (leads : mapper.Leads next path last)
    (onward : ∀ value content, part = some value → stored = some content →
      mapper.Stores codec value content → next.isWritten mapper.options value = true →
      List.Forall₂ (mapper.Stores inner)
        ((value.follow path).filter fun found => last.isWritten mapper.options found)
        (content.follow keys)) :
    List.Forall₂ (mapper.Stores inner)
      ((part.toList.flatMap (Value.follow path)).filter fun found =>
        last.isWritten mapper.options found)
      (stored.toList.flatMap (Bson.follow keys)) := by
  cases picks with
  | nothing => exact .nil
  | @left value left =>
    rw [Option.toList_some, List.flatMap_singleton, leads.left_out left]
    exact .nil
  | @stored value content written stores =>
    rw [Option.toList_some, Option.toList_some, List.flatMap_singleton, List.flatMap_singleton]
    exact onward value content rfl rfl stores written

/-- The translation of a declared path reaches in what is stored for a value just what the path
reaches in the value and is written there, as its codec stores it, in the same order. -/
theorem Leads.follow_stores (silent : mapper.Silent) (sound : mapper.Sound)
    (nameable : mapper.Nameable) {place last : Place} {path : List String}
    (leads : mapper.Leads place path last) {inner : Codec}
    (settled : mapper.registry.codec last.type = .ok inner) {codec : Codec} {value : Value}
    {content : Bson} (coded : mapper.registry.codec place.type = .ok codec)
    (stores : mapper.Stores codec value content) (apart : value.MapsApart)
    (precise : mapper.Exact place path value)
    (written : place.isWritten mapper.options value = true) {type : Option FieldType}
    {resolved : ResolvedPath}
    (resolves : mapper.resolveFrom (.below place.type) type path = some resolved) :
    List.Forall₂ (mapper.Stores inner)
      ((value.follow path).filter fun found => last.isWritten mapper.options found)
      (content.follow resolved.segments) := by
  induction leads generalizing codec value content type resolved with
  | here place =>
    rw [resolveFrom] at resolves
    obtain rfl := Option.some.inj resolves
    obtain rfl := Except.ok.inj (coded.symm.trans settled)
    have all : ([value].filter fun found => place.isWritten mapper.options found) = [value] := by
      simp [written]
    change List.Forall₂ _ ([value].filter _) [content]
    rw [all]
    exact .cons stores .nil
  | @property place last kind model field path inside found declared onward ih =>
    have within : codec.item = .entity kind := by
      have known := Registry.codec_item coded
      rw [inside] at known
      exact (Registry.codec_entity known).1
    obtain ⟨own, carried, known⟩ := sound.resolved model (model?_some found).1 field declared
    have readied : field.resolved = .ok own := by rw [Field.resolved, carried]
    have spreads := silent.spread_stores (within ▸ silent.entity_alone sound) stores
    rw [within] at spreads
    rw [nameable.resolveFrom_property inside found declared] at resolves
    obtain ⟨later, onto, rfl⟩ := Option.map_eq_some_iff.mp resolves
    obtain ⟨alike, onwards⟩ := exact_cons.mp precise
    refine forall₂_follow spreads fun one member stored related => ?_
    have picks : mapper.Picks (.property field) own (one.part field.name)
        (stored.part field.documentName) :=
      silent.picks_property sound found declared readied related fun actual properties same =>
        alike kind inside actual properties (same ▸ member)
    refine picks.follow onward fun next content picked _ stores written => ?_
    have precise := onwards _ (.property inside found declared (.here _)) one member next picked
    exact ih settled known stores ((apart.spread one member).part picked) precise written onto
  | @entry place last held path inside key onward ih =>
    have known := Registry.codec_item coded
    rw [inside] at known
    obtain ⟨own, known, within⟩ := ok_of_map known
    have spreads := silent.spread_stores (within ▸ silent.map_alone) stores
    rw [← within] at spreads
    rw [resolveFrom_entry inside] at resolves
    obtain ⟨later, onto, rfl⟩ := Option.map_eq_some_iff.mp resolves
    obtain ⟨-, onwards⟩ := exact_cons.mp precise
    refine forall₂_follow spreads fun one member stored related => ?_
    have picks : mapper.Picks (.entry held) own (one.part key) (stored.part key) :=
      silent.picks_key related (apart.spread one member) key
    refine picks.follow onward fun next content picked _ stores written => ?_
    have precise := onwards _ (.entry inside key (.here _)) one member next picked
    exact ih settled known stores ((apart.spread one member).part picked) precise written onto

/-- There is a codec wherever a declared path leads. -/
theorem Leads.coded (sound : mapper.Sound) {place last : Place} {path : List String}
    (leads : mapper.Leads place path last) {codec : Codec}
    (coded : mapper.registry.codec place.type = .ok codec) :
    ∃ inner, mapper.registry.codec last.type = .ok inner := by
  induction leads generalizing codec with
  | here => exact ⟨codec, coded⟩
  | @property place last kind model field path inside found declared onward ih =>
    obtain ⟨own, -, known⟩ := sound.resolved model (model?_some found).1 field declared
    exact ih known
  | entry inside key onward ih =>
    have known := Registry.codec_item coded
    rw [inside] at known
    obtain ⟨own, known, -⟩ := ok_of_map known
    exact ih known

/-- The document of an entity is what the codec of its kind stores for it, once it has its id. -/
theorem Silent.stores_given (silent : mapper.Silent) (sound : mapper.Sound)
    {entity given : Entity} {document : Document} {session after : Session}
    (stored : mapper.toDocument entity session = ⟨.ok document, given, after⟩) :
    mapper.registry.codec (.entity given.kind) = .ok (.entity given.kind) ∧
      mapper.Stores (.entity given.kind) (.ofEntity given) (.document document) := by
  cases located : mapper.model? entity.kind with
  | none =>
    rw [toDocument_unknown located] at stored
    cases stored
  | some model =>
    have same := Encoding.assignId_kind mapper.options model entity session
    rw [toDocument_eq located] at stored
    generalize Encoding.assignId mapper.options model entity session = assigned at stored same
    obtain ⟨known, between⟩ := assigned
    dsimp only at stored same
    rcases ran : perform (Stored.ofModel mapper.context model known
      (Stored.forms mapper.context known.properties)) between with ⟨outcome, last⟩
    rw [ran] at stored
    cases stored
    rw [← same] at located
    have registered : mapper.registry.has given.kind = true := by rw [sound.known, located]; rfl
    refine ⟨by rw [Registry.codec, if_pos registered], ?_⟩
    have form : Stored.value mapper.context (.ofEntity given) (.entity given.kind) =
        Bson.document <$> Stored.ofModel mapper.context model given
          (Stored.forms mapper.context given.properties) := by
      rw [Value.ofEntity, Stored.value, context_mapper, model_ok.mpr located]
      change Bson.document <$> Stored.entity mapper.context model given _ = _
      rw [Stored.entity, context_mapper, Stored.modelFor_eq sound (model?_some located).1 located]
      rfl
    have steady := @value_steady mapper.context silent (.ofEntity given) (.entity given.kind)
    refine steady.ensures between _ last ?_
    rw [form, perform_map, ran]
    rfl

/-- What is stored for a value of a type: null for null, and for any other value what the codec
of the type writes for it by itself. -/
def Encodes (mapper : Mapper) (type : FieldType) (value : Value) (content : Bson) : Prop :=
  if value.isNull then content = .null
  else ∃ codec, mapper.registry.codec type = .ok codec ∧ ∀ session,
    mapper.encodeValue codec value session = (.ok content, session)

/-- What the codec of a type stores is what is stored for the type. -/
theorem Stores.encodes {type : FieldType} {codec : Codec} {value : Value} {content : Bson}
    (stores : mapper.Stores codec value content)
    (coded : mapper.registry.codec type = .ok codec) : mapper.Encodes type value content := by
  unfold Encodes
  unfold Stores Stored.orNull at stores
  split at stores
  · rename_i null
    rw [if_pos null]
    have always : Ensures (pure Bson.null : SessionM Bson) fun content => content = .null :=
      Ensures.pure rfl
    exact Yields.holds stores always (.start fun _ => ⟨0⟩)
  · rename_i filled
    rw [if_neg filled]
    exact ⟨codec, coded, fun session => (encodeValue_eq mapper codec value session).trans
      (stores session)⟩

/-- Resolving a declared path ends, and its translation reaches in the document of an entity, as it
is after the call, just what the path reaches in the entity and is written there: each value in its
stored form, in the same order. -/
theorem resolvePath_reaches {plan : MapperPlan} {entity given : Entity} {document : Document}
    {session after : Session} {path : List String} {last : Place}
    (built : plan.assemble = .ok mapper) (silent : mapper.Silent) (nameable : mapper.Nameable)
    (stored : mapper.toDocument entity session = ⟨.ok document, given, after⟩)
    (apart : (Value.ofEntity given).MapsApart) (leads : mapper.Leads (.top given.kind) path last)
    (nonempty : path ≠ []) (plain : ∀ segment ∈ path, '.' ∉ segment.toList)
    (precise : mapper.Exact (.top given.kind) path (.ofEntity given)) :
    ∃ resolved, mapper.resolvePath? given.kind (String.intercalate "." path) = some resolved ∧
      resolved.isResolved = true ∧ resolved.type = some last.type ∧
      List.Forall₂ (mapper.Encodes last.type)
        (((Value.ofEntity given).follow path).filter fun found =>
          last.isWritten mapper.options found)
        ((Bson.document document).follow (Path.segments resolved.text)) := by
  have sound := MapperPlan.sound_of_assemble built
  obtain ⟨coded, stores⟩ := silent.stores_given sound stored
  obtain ⟨inner, settled⟩ := leads.coded sound coded
  obtain ⟨resolved, resolves, whole, typed, long, dotless⟩ := leads.resolved nameable none
  have translated : mapper.resolvePath? given.kind (String.intercalate "." path) =
      some resolved := by
    rw [resolvePath?, Path.segments_intercalate nonempty plain]
    exact resolves
  have segments := Path.segments_intercalate (fun empty => nonempty (by
    rw [empty] at long
    exact List.eq_nil_of_length_eq_zero long.symm)) (dotless plain)
  refine ⟨resolved, translated, by rw [ResolvedPath.isResolved, whole]; rfl,
    typed (.inr nonempty), ?_⟩
  rw [ResolvedPath.text, segments]
  have reached := leads.follow_stores silent sound nameable settled coded stores apart precise rfl
    resolves
  exact reached.imp fun value content known => known.encodes settled

/-- Shelves with rows of books. The title of a book is stored under the name of another property. -/
def shelves : MapperPlan :=
  ⟨.standard, [{ EntityModel.blank "Shelf" with
      fields := [(Field.plain "rows" (.list (.list (.entity "Book")))).storedAs "r"] },
    { EntityModel.blank "Book" with
      fields := [(Field.plain "title" (.scalar .string)).storedAs "owner",
        (Field.plain "owner" (.scalar .string)).storedAs "o"] }], [], []⟩

/-- A book with texts for its properties. -/
def bookWith (texts : List (String × String)) : Value :=
  .entity "Book" (texts.map fun entry => (entry.1, .string entry.2))

/-- A shelf with three books in two rows, the last of them without an owner. -/
def filledShelf : Entity :=
  ⟨"Shelf", [("rows", .array [
    .array [bookWith [("title", "Emma"), ("owner", "Ada")]],
    .array [bookWith [("owner", "Bob")], bookWith [("title", "Ulysses")]]])]⟩

/-- The document of the shelf. The title of a book stands where its owner would be looked for by
the name of the property. -/
def storedShelf : Document :=
  let book := fun entries => Bson.document (("_t", .string "Book") :: entries)
  [("_t", .string "Shelf"), ("r", .array [
    .array [book [("owner", .string "Emma"), ("o", .string "Ada")]],
    .array [book [("o", .string "Bob")], book [("owner", .string "Ulysses")]]])]

/-- There is no map on the shelf. -/
theorem filledShelf_apart : (Value.ofEntity filledShelf).MapsApart := by
  have book : ∀ texts, (bookWith texts).MapsApart := by
    refine fun texts => .entity fun entry member => ?_
    obtain ⟨text, -, rfl⟩ := List.mem_map.mp member
    exact .single rfl
  refine .entity fun entry member => ?_
  obtain rfl := List.mem_singleton.mp member
  refine .array fun row member => ?_
  rcases List.mem_pair.mp member with rfl | rfl <;> exact .array (by simp [book])

/-- All that stands on the shelf are books, as its field declares. -/
theorem filledShelf_exact {shelf : EntityModel} {rows : Field}
    (found : mapper.model? "Shelf" = some shelf) (fields : shelf.fields = [rows])
    (typed : rows.type = .list (.list (.entity "Book"))) :
    mapper.Exact (.top "Shelf") ["rows", "owner"] (.ofEntity filledShelf) := by
  refine exact_cons.mpr ⟨fun kind inside actual properties member => ?_,
    fun next onward one member held picked => ?_⟩
  · cases inside
    cases List.mem_singleton.mp member
    rfl
  obtain ⟨kind, model, field, inside, located, declared, -, rfl⟩ | ⟨value, inside, -⟩ :=
    leads_single.mp onward
  · cases inside
    obtain rfl := Option.some.inj (found.symm.trans located)
    obtain rfl : field = rows := by simpa [fields] using declared
    refine exact_cons.mpr ⟨fun kind inside actual properties among => ?_,
      fun next _ one _ found _ => exact_nil next found⟩
    rw [Place.type, typed] at inside
    cases inside
    cases List.mem_singleton.mp member
    cases picked
    have books : ∀ one ∈ [bookWith [("title", "Emma"), ("owner", "Ada")],
        bookWith [("owner", "Bob")], bookWith [("title", "Ulysses")]],
        ∃ properties, one = .entity "Book" properties := by simp [bookWith]
    obtain ⟨_, same⟩ := books _ among
    cases same
    rfl
  · cases inside

/-- The owners of the books on a shelf are found, and not their titles: one for each book that has
an owner. -/
theorem resolvePath_reaches_owners : ∃ mapper after resolved,
    let session := Session.start fun _ => ⟨7⟩
    shelves.assemble = .ok mapper ∧
      mapper.toDocument filledShelf session = ⟨.ok storedShelf, filledShelf, after⟩ ∧
      mapper.resolvePath? "Shelf" "rows.owner" = some resolved ∧
      resolved.isResolved = true ∧ resolved.type = some (.scalar .string) ∧
      List.Forall₂ (mapper.Encodes (.scalar .string)) [.string "Ada", .string "Bob"]
        ((Bson.document storedShelf).follow (Path.segments resolved.text)) := by
  obtain ⟨mapper, built⟩ : ∃ mapper, shelves.assemble = .ok mapper := ⟨_, rfl⟩
  have evaluated : (do
      let mapper ← shelves.assemble
      let result := mapper.toDocument filledShelf (.start fun _ => ⟨7⟩)
      pure (result.outcome, result.entity)) = .ok (.ok storedShelf, filledShelf) := by
    decide +kernel
  rw [built] at evaluated
  obtain ⟨after, stored⟩ : ∃ after,
      mapper.toDocument filledShelf (.start fun _ => ⟨7⟩) =
        ⟨.ok storedShelf, filledShelf, after⟩ := by
    obtain ⟨outcome, kept⟩ := Prod.mk.inj (Except.ok.inj evaluated)
    generalize mapper.toDocument filledShelf (.start fun _ => ⟨7⟩) = result at outcome kept
    cases result
    cases outcome
    cases kept
    exact ⟨_, rfl⟩
  have silent : mapper.Silent := by
    cases built
    refine ⟨rfl, fun model registered kind => ?_⟩
    rcases List.mem_pair.mp registered with rfl | rfl <;> rfl
  have nameable : mapper.Nameable := by
    cases built
    exact ⟨by unfold PropertiesApart; decide, by decide, by decide⟩
  obtain ⟨shelf, rows, book, title, owner, found, fields, known, others, ⟨named, name⟩,
      ⟨typed, type⟩, written, left⟩ : ∃ shelf rows book title owner,
        mapper.model? "Shelf" = some shelf ∧ shelf.fields = [rows] ∧
        mapper.model? "Book" = some book ∧ book.fields = [title, owner] ∧
        (rows.name = "rows" ∧ owner.name = "owner") ∧
        (rows.type = .list (.list (.entity "Book")) ∧ owner.type = .scalar .string) ∧
        (∀ text, owner.isWritten (.string text) mapper.options = true) ∧
        owner.isWritten .null mapper.options = false := by
    cases built
    exact ⟨_, _, _, _, _, rfl, rfl, rfl, rfl, ⟨rfl, rfl⟩, ⟨rfl, rfl⟩, fun _ => rfl, rfl⟩
  have leads : mapper.Leads (.top "Shelf") ["rows", "owner"] (.property owner) := by
    rw [← named, ← name]
    refine .property rfl found (by simp [fields]) (.property ?_ known (by simp [others]) (.here _))
    rw [Place.type, typed]
    rfl
  obtain ⟨resolved, resolves, whole, last, reached⟩ := resolvePath_reaches built silent nameable
    stored filledShelf_apart leads (by simp) (by decide) (filledShelf_exact found fields typed)
  have kept : (((Value.ofEntity filledShelf).follow ["rows", "owner"]).filter fun found =>
      (Place.property owner).isWritten mapper.options found) = [.string "Ada", .string "Bob"] := by
    change [Value.string "Ada", .string "Bob", .null].filter (fun found =>
      owner.isWritten found mapper.options) = _
    simp [written, left]
  rw [kept] at reached
  rw [Place.type, type] at last reached
  exact ⟨mapper, _, resolved, built, stored, resolves, whole, last, reached⟩

end Mapper

end EntityMapping
