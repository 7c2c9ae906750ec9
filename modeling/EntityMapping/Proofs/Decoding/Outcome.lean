import EntityMapping.Proofs.Decoding.Unhooked
import EntityMapping.Proofs.Mapper.ReadBack
import EntityMapping.Proofs.Mapper.Recognition
/-!
# The outcome of a reading

Without hooks a reading has no effect, so that nothing of it counts but its outcome. What a stored
value is read as is then a function of the codec and the value, with one equation for each codec
and form of value, and no levels to count.
-/

namespace EntityMapping

section

variable {ε α β : Type}

/-- Entries with new names are added one after the other. -/
theorem foldlM_insert_eq {walk : Keyed β → String × α → Except ε (Keyed β)}
    {step : String × α → Except ε β} {entries : Keyed α} {found : Keyed β}
    (adds : ∀ found, ∀ entry ∈ entries,
      walk found entry = (step entry).map fun value => Keyed.insert entry.1 value found)
    (apart : Keyed.Distinct entries) (fresh : ∀ entry ∈ entries, entry.1 ∉ Keyed.keys found) :
    entries.foldlM walk found =
      (entries.mapM fun entry => (step entry).map (entry.1, ·)).map (found ++ ·) := by
  induction entries generalizing found with
  | nil => simp [Except.map, pure, Except.pure]
  | cons entry rest ih =>
    obtain ⟨unseen, others⟩ := Keyed.distinct_cons.mp apart
    rw [List.foldlM_cons, List.mapM_cons, adds found entry (by simp)]
    cases step entry with
    | error cause => rfl
    | ok value =>
      have last : Keyed.insert entry.1 value found = found ++ [(entry.1, value)] :=
        Keyed.insert_new (fresh entry (by simp)) value
      have later : ∀ other ∈ rest, other.1 ∉ Keyed.keys (Keyed.insert entry.1 value found) :=
        last ▸ ReadsBack.fresh_append (fun other member => fresh other (by simp [member]))
          unseen value
      refine (ih (fun found other member => adds found other (by simp [member])) others
        later).trans ?_
      cases rest.mapM fun entry => (step entry).map (entry.1, ·) with
      | error cause => rfl
      | ok values => simp [Except.map, bind, Except.bind, pure, Except.pure, last]

end

namespace SessionM

variable {α β : Type}

/-- The outcome of a step in a fresh session. -/
def outcome (action : SessionM α) : Except MappingError α :=
  (perform action (.start fun _ => ⟨0⟩)).1

/-- A steady step ends in its outcome from every session. -/
theorem perform_steady {action : SessionM α} (steady : Steady action) (session : Session) :
    perform action session = (action.outcome, session) :=
  steady _ _ _ rfl session

/-- A lifted computation is its own outcome. -/
@[simp] theorem outcome_ofExcept (computation : Except MappingError α) :
    (ofExcept computation).outcome = computation := by
  rw [outcome, perform_ofExcept]

/-- A result is its own outcome. -/
@[simp] theorem outcome_pure (value : α) : (pure value : SessionM α).outcome = .ok value := rfl

/-- A failure is its own outcome. -/
@[simp] theorem outcome_throw (cause : MappingError) :
    (throw cause : SessionM α).outcome = .error cause := rfl

/-- A function of the result is one of the outcome. -/
@[simp] theorem outcome_map (change : α → β) (action : SessionM α) :
    (change <$> action).outcome = action.outcome.map change := by
  rw [outcome, perform_map]
  rfl

/-- After a steady step the second one starts from the same session. -/
theorem outcome_bind {action : SessionM α} (steady : Steady action) (next : α → SessionM β) :
    (action >>= next).outcome = action.outcome >>= fun value => (next value).outcome := by
  rw [outcome, perform_bind, perform_steady steady]
  cases action.outcome <;> rfl

/-- The outcome of a steady step, taken as a result. -/
theorem outcome_attempt (action : SessionM α) :
    (attempt action).outcome = .ok action.outcome := rfl

/-- Steady steps over a list give the outcomes of all. -/
theorem outcome_mapM {step : α → SessionM β} {items : List α}
    (each : ∀ item ∈ items, Steady (step item)) :
    (items.mapM step).outcome = items.mapM fun item => (step item).outcome := by
  induction items with
  | nil => rfl
  | cons item rest ih =>
    obtain ⟨first, others⟩ := List.forall_mem_cons.mp each
    rw [List.mapM_cons, List.mapM_cons, outcome_bind first, ← ih others]
    refine bind_congr fun value => ?_
    rw [outcome_bind (Steady.mapM others)]
    rfl

/-- A walk whose steps are steady gives what the walk over the outcomes gives. -/
theorem outcome_foldlM {step : β → α → SessionM β} {items : List α}
    (each : ∀ found, ∀ item ∈ items, Steady (step found item)) (start : β) :
    (items.foldlM step start).outcome =
      items.foldlM (fun found item => (step found item).outcome) start := by
  induction items generalizing start with
  | nil => rfl
  | cons item rest ih =>
    have later : ∀ found, ∀ other ∈ rest, Steady (step found other) :=
      fun found other member => each found other (by simp [member])
    rw [List.foldlM_cons, List.foldlM_cons, outcome_bind (each start item (by simp))]
    exact bind_congr fun found => ih later found

end SessionM

namespace Mapper

variable {mapper : Mapper} {codec : Codec} {stored : Bson}

/-- What a stored value is read as by a codec. -/
def reading (mapper : Mapper) (codec : Codec) (stored : Bson) : Except MappingError Value :=
  (Meaning.value mapper.context stored.tokens.length codec stored).outcome

/-- What a part of a list or of a map is read as: null stays null. -/
def readingPart (mapper : Mapper) (codec : Codec) (stored : Bson) : Except MappingError Value :=
  if stored.elementType = .null then .ok .null else mapper.reading codec stored

/-- A recognised model is found by its name, and its document is read by it. -/
theorem model_of_recognise {document : Document} {model : EntityModel}
    (recognised : Decoding.recognise mapper document = some model) :
    mapper.model? model.name = some model ∧
      Decoding.modelOfDocument mapper model document = .ok model := by
  rw [Decoding.recognise_eq] at recognised
  obtain ⟨key, -, under⟩ := List.exists_of_findSome?_eq_some recognised
  obtain ⟨text, name, -, -, known, -⟩ := Decoding.recogniseUnder_eq_some.mp under
  refine ⟨?_, Decoding.modelOfDocument_of_recogniseUnder under⟩
  rw [(model?_some known).2, known]

namespace Silent

/-- A value that is not nested deeper than allowed is read as by itself. -/
theorem reading_eq (silent : mapper.Silent) {depth : Nat} (deep : stored.tokens.length ≤ depth) :
    (Meaning.value mapper.context depth codec stored).outcome = mapper.reading codec stored :=
  congrArg SessionM.outcome
    (@Silent.reading_depth mapper.context silent _ _ codec stored deep (le_refl _))

/-- A value that is not nested deeper than allowed ends in its reading. -/
theorem perform_reading (silent : mapper.Silent) {depth : Nat}
    (deep : stored.tokens.length ≤ depth) (session : Session) :
    perform (Meaning.value mapper.context depth codec stored) session =
      (mapper.reading codec stored, session) := by
  have steady := @Silent.reading_steady mapper.context silent depth codec stored
  rw [SessionM.perform_steady steady, silent.reading_eq deep]

/-- A reading ends as the function says. -/
theorem readsAs_iff (silent : mapper.Silent) {outcome : Except MappingError Value} :
    mapper.ReadsAs codec stored outcome ↔ mapper.reading codec stored = outcome := by
  have reads := silent.readsAs (le_refl _)
    (@perform_reading mapper codec stored silent _ (le_refl _) (.start fun _ => ⟨0⟩))
  exact ⟨fun other => reads.unique other, fun same => same ▸ reads⟩

/-- A part is read as the function says. -/
theorem readingPart_eq (silent : mapper.Silent) {depth : Nat}
    (deep : stored.tokens.length ≤ depth) :
    (Meaning.nullable (Meaning.value mapper.context depth codec) stored).outcome =
      mapper.readingPart codec stored := by
  rw [Meaning.nullable, readingPart, ← silent.reading_eq deep]
  split <;> rfl

/-- Parts are read in one way. -/
theorem steady_part (silent : mapper.Silent) (depth : Nat) (codec : Codec) (stored : Bson) :
    Steady (Meaning.nullable (Meaning.value mapper.context depth codec) stored) := by
  unfold Meaning.nullable
  split
  · exact Steady.pure _
  · exact @Silent.reading_steady mapper.context silent depth codec stored

/-- A scalar is read where one of its type is stored. -/
theorem reading_scalar (silent : mapper.Silent) (type : ScalarType) :
    mapper.reading (.scalar type) stored =
      if stored.elementType = type.elementType then .ok (.ofBson stored)
      else .error (Meaning.mismatch type.elementType stored) := by
  rw [← silent.reading_eq (Nat.le_succ _), Meaning.value, Meaning.scalar]
  split <;> rfl

/-- A list is read item by item. -/
theorem reading_list (silent : mapper.Silent) (element : Codec) (items : List Bson) :
    mapper.reading (.list element) (.array items) =
      (items.mapM (mapper.readingPart element)).map .array := by
  rw [← silent.reading_eq (Nat.le_succ _), Meaning.value, Meaning.list, Meaning.items,
    SessionM.outcome_map, SessionM.outcome_mapM fun item _ => silent.steady_part _ _ item]
  congr 1
  refine mapM_congr fun item member => ?_
  exact silent.readingPart_eq (Bson.tokens_length_item member).le

/-- A list is read as the list of what its items are read as. -/
theorem reading_list_iff (silent : mapper.Silent) {element : Codec} {items : List Bson}
    {values : List Value} :
    mapper.reading (.list element) (.array items) = .ok (.array values) ↔
      List.Forall₂ (fun item value => mapper.readingPart element item = .ok value)
        items values := by
  rw [silent.reading_list, ← mapM_eq_ok]
  cases items.mapM (mapper.readingPart element) <;> simp [Except.map]

/-- Nothing else is read as a list. -/
theorem reading_list_other (silent : mapper.Silent) (element : Codec)
    (other : ∀ items, stored ≠ .array items) :
    mapper.reading (.list element) stored = .error (Meaning.mismatch .array stored) := by
  rw [← silent.reading_eq (Nat.le_succ _), Meaning.value]
  cases stored with
  | array items => exact absurd rfl (other items)
  | _ => rfl

/-- What is read as a list is an array, and its items are read as those of the list. -/
theorem reading_list_ok (silent : mapper.Silent) {element : Codec} {value : Value}
    (read : mapper.reading (.list element) stored = .ok value) :
    ∃ items values, stored = .array items ∧ value = .array values ∧
      List.Forall₂ (fun item value => mapper.readingPart element item = .ok value)
        items values := by
  by_cases array : ∃ items, stored = .array items
  · obtain ⟨items, rfl⟩ := array
    have whole := read
    rw [silent.reading_list] at whole
    obtain ⟨values, -, rfl⟩ := ok_of_map whole
    exact ⟨items, values, rfl, rfl, silent.reading_list_iff.mp read⟩
  · rw [silent.reading_list_other element fun items same => array ⟨items, same⟩] at read
    cases read

/-- A document is read as a map entry by entry. -/
theorem reading_map (silent : mapper.Silent) (element : Codec) {document : Document}
    (apart : Keyed.Distinct document) :
    mapper.reading (.map element) (.document document) =
      (document.mapM fun entry =>
        (mapper.readingPart element entry.2).map (entry.1, ·)).map .map := by
  have steady := fun found (entry : String × Bson) (_ : entry ∈ document) =>
    (silent.steady_part (Bson.document document).tokens.length element entry.2).andThen
      fun value => Steady.pure (Keyed.insert entry.1 value found)
  rw [← silent.reading_eq (Nat.le_succ _), Meaning.value, Meaning.map, Meaning.entries,
    SessionM.outcome_map]
  congr 1
  refine (SessionM.outcome_foldlM steady []).trans ?_
  rw [@foldlM_insert_eq _ _ _ _ (fun entry => mapper.readingPart element entry.2) _ _ ?_ apart
    (by simp [Keyed.keys])]
  · cases document.mapM fun entry => (mapper.readingPart element entry.2).map (entry.1, ·) <;> rfl
  · intro found entry member
    rw [SessionM.outcome_bind (silent.steady_part _ _ _),
      silent.readingPart_eq (Bson.tokens_length_entry member).le]
    cases mapper.readingPart element entry.2 <;> rfl

/-- A document is read as the map of what its values are read as. -/
theorem reading_map_iff (silent : mapper.Silent) {element : Codec} {document : Document}
    (apart : Keyed.Distinct document) {values : List (String × Value)} :
    mapper.reading (.map element) (.document document) = .ok (.map values) ↔
      List.Forall₂ (fun entry value => entry.1 = value.1 ∧
        mapper.readingPart element entry.2 = .ok value.2) document values := by
  rw [silent.reading_map element apart, ← mapM_entries_eq_ok]
  cases document.mapM fun entry => (mapper.readingPart element entry.2).map (entry.1, ·) <;>
    simp [Except.map]

/-- Nothing else is read as a map. -/
theorem reading_map_other (silent : mapper.Silent) (element : Codec)
    (other : ∀ document, stored ≠ .document document) :
    mapper.reading (.map element) stored = .error (Meaning.mismatch .embeddedDocument stored) := by
  rw [← silent.reading_eq (Nat.le_succ _), Meaning.value]
  cases stored with
  | document entries => exact absurd rfl (other entries)
  | _ => rfl

/-- What is read as a map is a document, and its entries are read as those of the map. -/
theorem reading_map_ok (silent : mapper.Silent) {element : Codec} {value : Value}
    (distinct : stored.Distinct) (read : mapper.reading (.map element) stored = .ok value) :
    ∃ document values, stored = .document document ∧ value = .map values ∧
      List.Forall₂ (fun entry value => entry.1 = value.1 ∧
        mapper.readingPart element entry.2 = .ok value.2) document values := by
  by_cases document : ∃ document, stored = .document document
  · obtain ⟨document, rfl⟩ := document
    have whole := read
    rw [silent.reading_map element distinct.1] at whole
    obtain ⟨values, -, rfl⟩ := ok_of_map whole
    exact ⟨document, values, rfl, rfl, (silent.reading_map_iff distinct.1).mp read⟩
  · rw [silent.reading_map_other element fun found same => document ⟨found, same⟩] at read
    cases read

/-- Nothing but a document is read as an entity. -/
theorem reading_entity_other (silent : mapper.Silent) (name : String)
    (other : ∀ document, stored ≠ .document document) :
    mapper.reading (.entity name) stored =
      .error (Meaning.mismatch .embeddedDocument stored) := by
  rw [← silent.reading_eq (Nat.le_succ _), Meaning.value]
  cases stored with
  | document entries => exact absurd rfl (other entries)
  | _ => rfl

/-- What is read as an entity is a document, and one of the model chosen for the document. -/
theorem reading_entity_ok (silent : mapper.Silent) {name : String} {value : Value}
    (distinct : stored.Distinct) (read : mapper.reading (.entity name) stored = .ok value) :
    ∃ document declared model properties, stored = .document document ∧
      mapper.model? name = some declared ∧
      Decoding.modelOfDocument mapper declared document = .ok model ∧
      value = .entity model.name properties := by
  by_cases known : ∃ document, stored = .document document
  · obtain ⟨document, rfl⟩ := known
    have always : Ensures (Meaning.value mapper.context
        ((Bson.document document).tokens.length + 1) (.entity name) (.document document))
          fun value => ∃ declared model properties, mapper.model? name = some declared ∧
            Decoding.modelOfDocument mapper declared document = .ok model ∧
            value = .entity model.name properties := by
      rw [Meaning.value, Meaning.embedded]
      refine (SessionM.ensures_ofExcept _).bind fun declared located => Ensures.map ?_
      refine (Meaning.entity_kind declared distinct).weaken fun entity known => ?_
      obtain ⟨model, chosen, kind⟩ := known
      exact ⟨declared, model, entity.properties, model_ok.mp located, chosen, by
        rw [Value.ofEntity, kind]⟩
    have ran := @perform_reading mapper (.entity name) (.document document) silent _
      (Nat.le_succ _) (.start fun _ => ⟨0⟩)
    rw [read] at ran
    obtain ⟨declared, model, properties, found⟩ := always _ value _ ran
    exact ⟨document, declared, model, properties, rfl, found⟩
  · rw [silent.reading_entity_other name fun found same => known ⟨found, same⟩] at read
    cases read

/-- An array is read for what it is item by item. -/
theorem reading_any_array (silent : mapper.Silent) (items : List Bson) :
    mapper.reading .any (.array items) = (items.mapM (mapper.reading .any)).map .array := by
  rw [← silent.reading_eq (Nat.le_succ _), Meaning.value, Meaning.any, Meaning.items,
    SessionM.outcome_map, SessionM.outcome_mapM fun item _ => silent.reading_steady _ _ item]
  congr 1
  exact mapM_congr fun item member => silent.reading_eq (Bson.tokens_length_item member).le

/-- An array is read for what it is as the list of what its items are. -/
theorem reading_any_array_iff (silent : mapper.Silent) {items : List Bson} {values : List Value} :
    mapper.reading .any (.array items) = .ok (.array values) ↔
      List.Forall₂ (fun item value => mapper.reading .any item = .ok value) items values := by
  rw [silent.reading_any_array, ← mapM_eq_ok]
  cases items.mapM (mapper.reading .any) <;> simp [Except.map]

/-- A document is read for what it is as an entity of the model that it is recognised for, and
otherwise as the map that it is. -/
theorem reading_any_document (silent : mapper.Silent) {document : Document}
    (distinct : document.Distinct) :
    mapper.reading .any (.document document) =
      match Decoding.recognise mapper document with
      | some model => mapper.reading (.entity model.name) (.document document)
      | none => .ok (.ofBson (.document document)) := by
  rw [← silent.reading_eq (Nat.le_succ _), Meaning.value, Meaning.any,
    Meaning.document_distinct distinct, context_mapper]
  cases recognised : Decoding.recognise mapper document with
  | none => rfl
  | some model =>
    have located : SessionM.ofExcept (mapper.context.mapper.model model.name) = pure model := by
      rw [context_mapper, model_ok.mpr (model_of_recognise recognised).1]
      rfl
    dsimp only
    rw [← silent.reading_eq (Nat.le_succ _), Meaning.value, Meaning.embedded, located, pure_bind]

/-- A value without parts is read for what it is as itself. -/
theorem reading_any_single (silent : mapper.Silent) (flat : ∀ items, stored ≠ .array items)
    (bare : ∀ document, stored ≠ .document document) :
    mapper.reading .any stored = .ok (.ofBson stored) := by
  rw [← silent.reading_eq (Nat.le_succ _), Meaning.value]
  cases stored with
  | array items => exact absurd rfl (flat items)
  | document entries => exact absurd rfl (bare entries)
  | _ => rfl

end Silent

end Mapper

end EntityMapping
