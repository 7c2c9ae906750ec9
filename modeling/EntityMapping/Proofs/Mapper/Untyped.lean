import EntityMapping.Proofs.Bson.Subvalues
import EntityMapping.Proofs.Mapper.Anywhere
/-!
# Stored values where anything may stand

Where anything may stand, a stored value is read for what it is: arrays item by item, and
documents as a whole unless they are recognised. What it is says nothing about mappers, so the
two readings differ only where a document in a list is recognised. Stored again, the value that
it is gives the stored value back, with null wherever undefined was.
-/

namespace EntityMapping

/-- A list is left as it is exactly where each of its items is. -/
theorem map_eq_self {α : Type} {change : α → α} {items : List α} :
    items.map change = items ↔ ∀ item ∈ items, change item = item := by
  have whole := @List.map_inj_left _ _ items change id
  rwa [List.map_id] at whole

namespace Bson

/-- A value is in another: it is the whole, or in an item of an array, or in an entry of a
document. Nothing is looked for in the scope of a piece of code. -/
inductive Within (part : Bson) : Bson → Prop where
  /-- The whole. -/
  | whole : Within part part
  /-- In an item of an array. -/
  | item {items : List Bson} {item : Bson} (member : item ∈ items) (inside : Within part item) :
    Within part (.array items)
  /-- In an entry of a document. -/
  | entry {entries : List (String × Bson)} {entry : String × Bson} (member : entry ∈ entries)
    (inside : Within part entry.2) : Within part (.document entries)

/-- A value is in another with nothing but arrays around it. -/
inductive Listed (part : Bson) : Bson → Prop where
  /-- The whole. -/
  | whole : Listed part part
  /-- In an item of an array. -/
  | item {items : List Bson} {item : Bson} (member : item ∈ items) (inside : Listed part item) :
    Listed part (.array items)

variable {part : Bson}

/-- What has only arrays around it is in a value. -/
theorem Listed.within {stored : Bson} (listed : Listed part stored) : Within part stored := by
  induction listed with
  | whole => exact .whole
  | item member _ ih => exact .item member ih

/-- In a value without parts there is only the value. -/
theorem within_single {stored : Bson} (simple : stored.isSingle = true) :
    Within part stored ↔ part = stored := by
  constructor
  · intro inside
    cases inside with
    | whole => rfl
    | item | entry => cases simple
  · rintro rfl
    exact .whole

/-- In a piece of code there is only the code. -/
theorem within_scopedCode {source : String} {scope : List (String × Bson)} :
    Within part (.scopedCode source scope) ↔ part = .scopedCode source scope := by
  constructor
  · intro inside
    cases inside with
    | whole => rfl
  · rintro rfl
    exact .whole

/-- In an array there is the array, and what is in its items. -/
theorem within_array {items : List Bson} :
    Within part (.array items) ↔ part = .array items ∨ ∃ item ∈ items, Within part item := by
  constructor
  · intro inside
    cases inside with
    | whole => exact .inl rfl
    | item member deeper => exact .inr ⟨_, member, deeper⟩
  · rintro (rfl | ⟨item, member, deeper⟩)
    · exact .whole
    · exact .item member deeper

/-- In a document there is the document, and what is in its entries. -/
theorem within_document {entries : List (String × Bson)} :
    Within part (.document entries) ↔
      part = .document entries ∨ ∃ entry ∈ entries, Within part entry.2 := by
  constructor
  · intro inside
    cases inside with
    | whole => exact .inl rfl
    | entry member deeper => exact .inr ⟨_, member, deeper⟩
  · rintro (rfl | ⟨entry, member, deeper⟩)
    · exact .whole
    · exact .entry member deeper

mutual

/-- The value with null for undefined. -/
def defined : Bson → Bson
  | .undefined => .null
  | .array items => .array (definedItems items)
  | .document entries => .document (definedEntries entries)
  | value => value

/-- Items with null for undefined. -/
def definedItems : List Bson → List Bson
  | [] => []
  | item :: rest => defined item :: definedItems rest

/-- Entries with null for undefined, under the same names. -/
def definedEntries : List (String × Bson) → List (String × Bson)
  | [] => []
  | (key, value) :: rest => (key, defined value) :: definedEntries rest

end

/-- Items are defined one by one. -/
theorem definedItems_eq (items : List Bson) : definedItems items = items.map defined := by
  induction items with
  | nil => rw [definedItems, List.map_nil]
  | cons item rest ih => rw [definedItems, ih, List.map_cons]

/-- Entries are defined one by one, under their names. -/
theorem definedEntries_eq (entries : List (String × Bson)) :
    definedEntries entries = entries.map fun entry => (entry.1, defined entry.2) := by
  induction entries with
  | nil => rw [definedEntries, List.map_nil]
  | cons entry rest ih => rw [definedEntries, ih, List.map_cons]

/-- A value is defined as it stands exactly where there is no undefined in it. -/
theorem defined_eq_self_iff {stored : Bson} :
    stored.defined = stored ↔ ¬ Within .undefined stored := by
  induction stored using parts_induction with
  | single value simple =>
    rw [within_single simple]
    cases value with
    | array | document | scopedCode => cases simple
    | _ => simp [defined]
  | scopedCode source scope => simp [defined, within_scopedCode]
  | array items ih =>
    rw [defined, definedItems_eq, array.injEq, map_eq_self, within_array]
    simp only [reduceCtorEq, false_or, not_exists, not_and]
    exact forall₂_congr ih
  | document entries ih =>
    rw [defined, definedEntries_eq, document.injEq, map_eq_self, within_document]
    simp only [reduceCtorEq, false_or, not_exists, not_and, Prod.ext_iff, true_and]
    exact forall₂_congr ih

end Bson

/-- Where anything may stand, a stored value is stored again as it is, with null for undefined. -/
theorem Stored.value_ofBson (context : MappingContext) {stored : Bson}
    (distinct : stored.Distinct) :
    Yields (Stored.value context (Value.ofBson stored) .any) stored.defined := by
  induction stored using Bson.parts_induction with
  | single value simple =>
    cases value with
    | array | document | scopedCode => cases simple
    | _ =>
      simp only [Value.ofBson, Bson.defined]
      rw [Stored.value_single rfl]
      exact Yields.pure _
  | scopedCode source scope =>
    simp only [Value.ofBson, Bson.defined]
    rw [Stored.value_single rfl]
    exact Yields.pure _
  | array items ih =>
    have each : ∀ item ∈ items, Yields (Stored.orNull (Value.ofBson item)
        (Stored.value context (Value.ofBson item) .any)) item.defined := by
      intro item member
      rw [AnyBack.orNull_any]
      exact ih item member (Bson.ItemsDistinct.of_mem distinct member)
    rw [Value.ofBson, Value.ofItems_eq, Stored.value, Stored.items_eq, List.mapM_map, Bson.defined,
      Bson.definedItems_eq]
    exact (Yields.mapM_map each).map Bson.array
  | document entries ih =>
    obtain ⟨apart, inside⟩ := distinct
    have each : ∀ document : Document, ∀ entry ∈ entries, Yields (do
        let stored ← Stored.orNull (Value.ofBson entry.2)
          (Stored.value context (Value.ofBson entry.2) .any)
        pure (Keyed.insert entry.1 stored document))
          (Keyed.insert entry.1 entry.2.defined document) := by
      intro document entry member
      rw [AnyBack.orNull_any]
      exact (ih entry member (inside.of_mem member)).bind (Yields.pure _)
    have stored := Yields.foldlM_foldl each []
    rw [Value.ofBson, Value.ofEntries_eq, Stored.value, Stored.named_eq, Bson.defined,
      Bson.definedEntries_eq, ← Keyed.ofPairs_distinct (apart.map Bson.defined), List.foldlM_map]
    rw [Keyed.ofPairs, Keyed.overlay, List.foldl_map]
    exact stored.map Bson.document

namespace Mapper

variable {mapper : Mapper} {document : Document} {stored : Bson}

/-- A document carries a registered discriminator: under a key of the mapper it stores a text that
is registered for a model with that key. -/
def Recognises (mapper : Mapper) (document : Document) : Prop :=
  ∃ key ∈ mapper.discriminatorKeys, ∃ text name model,
    Keyed.get? key document = some (.string text) ∧
      mapper.discriminators.lookup text = some name ∧ mapper.model? name = some model ∧
        model.discriminatorKey = some key

/-- A document is recognised exactly where it carries a registered discriminator. -/
theorem recognise_eq_none_iff :
    Decoding.recognise mapper document = none ↔ ¬ mapper.Recognises document := by
  rw [Decoding.recognise_eq, List.findSome?_eq_none_iff]
  constructor
  · rintro free ⟨key, listed, text, name, model, carried⟩
    have under := Decoding.recogniseUnder_eq_some.mpr ⟨text, name, carried⟩
    cases (free key listed).symm.trans under
  · intro free key listed
    rw [Option.eq_none_iff_forall_ne_some]
    intro model under
    obtain ⟨text, name, carried⟩ := Decoding.recogniseUnder_eq_some.mp under
    exact free ⟨key, listed, text, name, model, carried⟩

/-- A stored value is read for what it is where no document in it is recognised, but for those in
documents, which are not looked for. -/
theorem meaning_ofBson (distinct : stored.Distinct)
    (free : ∀ document, Bson.Listed (.document document) stored → ¬ mapper.Recognises document)
    {depth : Nat} (enough : stored.tokens.length ≤ depth) :
    Yields (Meaning.value mapper.context depth .any stored) (Value.ofBson stored) := by
  induction stored using Bson.parts_induction generalizing depth with
  | single value simple =>
    obtain ⟨level, rfl⟩ := ReadsBack.level_of_enough enough
    cases value with
    | array | document | scopedCode => cases simple
    | _ => exact Yields.pure _
  | scopedCode source scope =>
    obtain ⟨level, rfl⟩ := ReadsBack.level_of_enough enough
    exact Yields.pure _
  | array items ih =>
    obtain ⟨level, rfl⟩ := ReadsBack.level_of_enough enough
    rw [Meaning.value, Meaning.any, Meaning.items, Value.ofBson, Value.ofItems_eq]
    refine (Yields.mapM_map fun item member => ?_).map Value.array
    have shorter := Bson.tokens_length_item member
    exact ih item member (Bson.ItemsDistinct.of_mem distinct member)
      (fun document listed => free document (.item member listed)) (by omega)
  | document entries =>
    obtain ⟨level, rfl⟩ := ReadsBack.level_of_enough enough
    rw [Meaning.value, Meaning.any, Meaning.document_distinct distinct, context_mapper,
      recognise_eq_none_iff.mpr (free entries .whole)]
    exact Yields.pure _

/-- Where a stored value is read for what it is, no document in a list is recognised. -/
theorem free_of_meaning (distinct : stored.Distinct) (depth : Nat) :
    Ensures (Meaning.value mapper.context depth .any stored) fun value =>
      value = Value.ofBson stored →
        ∀ document, Bson.Listed (.document document) stored → ¬ mapper.Recognises document := by
  induction stored using Bson.parts_induction generalizing depth with
  | single value simple =>
    refine (Ensures.trivial _).weaken fun _ _ _ document listed => ?_
    have same := (Bson.within_single simple).mp listed.within
    subst same
    cases simple
  | scopedCode source scope =>
    refine (Ensures.trivial _).weaken fun _ _ _ document listed => ?_
    cases Bson.within_scopedCode.mp listed.within
  | array items ih =>
    cases depth with
    | zero => exact Ensures.throw
    | succ level =>
      rw [Meaning.value, Meaning.any, Meaning.items, Value.ofBson, Value.ofItems_eq]
      apply Ensures.map
      refine (ReadsBack.mapM_forall₂ fun item member =>
        ih item member (Bson.ItemsDistinct.of_mem distinct member) level).weaken
          fun values each same document listed => ?_
      rw [Value.array.injEq] at same
      subst same
      cases listed with
      | item member inside =>
        exact List.forall₂_same.mp (List.forall₂_map_right_iff.mp each) _ member rfl document inside
  | document entries =>
    cases depth with
    | zero => exact Ensures.throw
    | succ level =>
      rw [Meaning.value, Meaning.any, Meaning.document_distinct distinct, context_mapper]
      cases found : Decoding.recognise mapper entries with
      | none =>
        refine Ensures.pure fun _ document listed => ?_
        cases listed
        exact recognise_eq_none_iff.mp found
      | some model =>
        apply Ensures.map
        refine (Ensures.trivial _).weaken fun entity _ same => ?_
        simp [Value.ofEntity, Value.ofBson] at same

/-- Where anything may stand, a stored value is read for what it is exactly where none of the
documents that have only arrays around them carries a registered discriminator. -/
theorem decodeAny_ofBson_iff (distinct : stored.Distinct) (session : Session) :
    (mapper.decodeValue .any (Reader.ofBson stored) session).1 = .ok (Value.ofBson stored) ↔
      ∀ document, Bson.Listed (.document document) stored → ¬ mapper.Recognises document := by
  rw [decodeValue_eq]
  constructor
  · intro read
    exact free_of_meaning distinct _ session _ _ (Prod.ext read rfl) rfl
  · intro free
    have enough : stored.tokens.length ≤ Decoding.depthFor (Reader.ofBson stored) :=
      Nat.le_add_right _ _
    rw [meaning_ofBson distinct free enough session]

/-- What a stored value is, is stored as that value with null for undefined. -/
theorem encodeAny_ofBson (mapper : Mapper) (distinct : stored.Distinct) (session : Session) :
    mapper.encodeValue .any (Value.ofBson stored) session = (.ok stored.defined, session) := by
  rw [encodeValue_eq]
  exact Stored.value_ofBson mapper.context distinct session

/-- Whatever the mapper, a stored value in which nothing is undefined and no document carries a
registered discriminator is read for what it is where anything may stand, and the value read is
stored again as the very same, with its names in the same order. -/
theorem any_roundtrip (distinct : stored.Distinct) (defined : ¬ Bson.Within .undefined stored)
    (unmarked : ∀ document, Bson.Within (.document document) stored → ¬ mapper.Recognises document)
    (session later : Session) :
    (mapper.decodeValue .any (Reader.ofBson stored) session).1 = .ok (Value.ofBson stored) ∧
      mapper.encodeValue .any (Value.ofBson stored) later = (.ok stored, later) := by
  constructor
  · exact (decodeAny_ofBson_iff distinct session).mpr fun document listed =>
      unmarked document listed.within
  · rw [encodeAny_ofBson mapper distinct, Bson.defined_eq_self_iff.mpr defined]

/-- A document with the discriminator of no model and the least of all keys come back from a
list. -/
theorem any_roundtrip_unknown : ∃ mapper, pointsOnLine.assemble = .ok mapper ∧
    let stored : Bson := .array [.document [("_t", .string "Circle")], .minKey]
    stored.Distinct ∧ ¬ Bson.Within .undefined stored ∧
      (∀ document, Bson.Within (.document document) stored → ¬ mapper.Recognises document) ∧
      ∀ session : Session,
        (mapper.decodeValue .any (Reader.ofBson stored) session).1 = .ok (Value.ofBson stored) ∧
          mapper.encodeValue .any (Value.ofBson stored) session = (.ok stored, session) := by
  obtain ⟨mapper, built⟩ : ∃ mapper, pointsOnLine.assemble = .ok mapper := ⟨_, rfl⟩
  refine ⟨mapper, built, ?_⟩
  intro stored
  have distinct : stored.Distinct := by
    simp [stored, Bson.Distinct, Bson.EntriesDistinct, Bson.ItemsDistinct, Keyed.Distinct,
      Keyed.keys]
  have defined : ¬ Bson.Within .undefined stored := Bson.defined_eq_self_iff.mp rfl
  have unmarked : ∀ document, Bson.Within (.document document) stored →
      ¬ mapper.Recognises document := by
    intro document inside
    have only : document = [("_t", .string "Circle")] := by
      rcases Bson.within_array.mp inside with same | ⟨item, member, deeper⟩
      · cases same
      · obtain rfl | rfl := List.mem_pair.mp member
        · cases deeper with
          | whole => rfl
          | entry member deepest =>
            obtain rfl := List.mem_singleton.mp member
            cases deepest
        · cases deeper
    rw [only, ← recognise_eq_none_iff]
    cases built
    rfl
  exact ⟨distinct, defined, unmarked, fun session =>
    any_roundtrip distinct defined unmarked session session⟩

end Mapper

end EntityMapping
