import EntityMapping.Proofs.Decoding.Meaning
import EntityMapping.Proofs.Encoding.Stored
import EntityMapping.Proofs.Stream.Values
import EntityMapping.Proofs.Value.Alike
/-!
# Stored values that read back

A stored form reads back when the codec that wrote it reads an alike value from it, at
any depth that its tokens do not exceed. Scalars that are no NaN read back, and lists
and maps do where their parts do.
-/

namespace EntityMapping

/-- From a stored form the codec reads a value like the one it was stored for. -/
def ReadsBack (context : MappingContext) (codec : Codec) (value : Value) (stored : Bson) : Prop :=
  stored.elementType ≠ .null ∧ ∀ depth, stored.tokens.length ≤ depth →
    ∃ back, Yields (Meaning.value context depth codec stored) back ∧ back.Alike value

/-- A part of a list or map reads back, nulls included. -/
def PartReadsBack (context : MappingContext) (codec : Codec) (value : Value) (stored : Bson) :
    Prop :=
  ∀ depth, stored.tokens.length ≤ depth → ∃ back,
    Yields (Meaning.nullable (Meaning.value context depth codec) stored) back ∧ back.Alike value

namespace ReadsBack

variable {context : MappingContext} {codec : Codec}

/-- A depth that the tokens of a value do not exceed leaves a level for its parts. -/
theorem level_of_enough {stored : Bson} {depth : Nat} (enough : stored.tokens.length ≤ depth) :
    ∃ level, depth = level + 1 := by
  have positive := stored.tokens_length_pos
  exact ⟨depth - 1, by omega⟩

/-- A scalar is stored under the type of its codec, and is what is stored. -/
theorem scalar?_some {type : ScalarType} {single : Value} {stored : Bson}
    (found : Encoding.scalar? type single = some stored) :
    stored.elementType = type.elementType ∧ Value.ofBson stored = single := by
  cases type <;> cases single <;> cases found <;> exact ⟨rfl, by rw [Value.ofBson]⟩

/-- A stored scalar that is no NaN equals itself. -/
theorem scalar_alike {type : ScalarType} {single : Value} {stored : Bson}
    (found : Encoding.scalar? type single = some stored)
    (number : ∀ double, single = .double double → double.isNaN = false) :
    single.Alike single := by
  cases type <;> cases single <;> cases found <;>
    simp [Value.Alike, Value.same, Binary64.same]
  exact number _ rfl

/-- A value without parts reads back. -/
theorem plain_readsBack {single : Value} (declared : codec ≠ .any)
    (number : ∀ double, single = .double double → double.isNaN = false) :
    Ensures (Stored.plain single codec) (ReadsBack context codec single) := by
  cases codec with
  | any => exact absurd rfl declared
  | list | map | entity => exact Ensures.throw
  | scalar type =>
    rw [Stored.plain]
    cases found : Encoding.scalar? type single with
    | none => exact Ensures.throw
    | some stored =>
      obtain ⟨fits, same⟩ := scalar?_some found
      refine Ensures.pure ⟨?_, fun depth enough => ⟨single, ?_, scalar_alike found number⟩⟩
      · rw [fits]
        cases type <;> simp [ScalarType.elementType]
      · obtain ⟨level, rfl⟩ := level_of_enough enough
        rw [Meaning.value, Meaning.scalar, if_pos fits, same]
        exact Yields.pure single

/-- A part reads back where it is null or its form does. -/
theorem orNull_readsBack {value : Value} {form : SessionM Bson}
    (each : Ensures form (ReadsBack context codec value)) :
    Ensures (Stored.orNull value form) (PartReadsBack context codec value) := by
  unfold Stored.orNull
  split
  · rename_i isNull
    refine Ensures.pure fun depth _ => ⟨.null, Yields.pure Value.null, ?_⟩
    cases value <;> simp [Value.isNull, Value.Alike, Value.same] at isNull ⊢
  · refine each.weaken fun stored whole depth enough => ?_
    obtain ⟨filled, reads⟩ := whole
    obtain ⟨back, known, alike⟩ := reads depth enough
    refine ⟨back, ?_, alike⟩
    rw [Meaning.nullable, if_neg filled]
    exact known

/-- A walk over a list relates every item to its result. -/
theorem mapM_forall₂ {α β : Type} {step : α → SessionM β} {related : α → β → Prop} :
    ∀ {items : List α}, (∀ item ∈ items, Ensures (step item) (related item)) →
      Ensures (items.mapM step) (List.Forall₂ related items)
  | [], _ => by
    rw [List.mapM_nil]
    exact Ensures.pure .nil
  | item :: rest, each => by
    rw [List.mapM_cons]
    refine (each item (by simp)).bind fun first here => ?_
    refine (mapM_forall₂ fun later member => each later (by simp [member])).bind
      fun others there => ?_
    exact Ensures.pure (.cons here there)

/-- Parts that are read back one by one. -/
theorem mapM_readsBack {read : Bson → SessionM Value} {related : Value → Value → Prop}
    {values : List Value} {stored : List Bson}
    (each : List.Forall₂ (fun value form => ∃ back, Yields (read form) back ∧ related back value)
      values stored) :
    ∃ backs, Yields (stored.mapM read) backs ∧ List.Forall₂ related backs values := by
  induction each with
  | nil => exact ⟨[], Yields.pure [], .nil⟩
  | cons first _ ih =>
    obtain ⟨back, known, alike⟩ := first
    obtain ⟨backs, others, rest⟩ := ih
    rw [List.mapM_cons]
    exact ⟨back :: backs, known.bind (others.bind (Yields.pure (back :: backs))),
      .cons alike rest⟩

/-- A list reads back where its items do. -/
theorem items_readsBack {values : List Value}
    (each : ∀ item ∈ values, Ensures (Stored.value context item codec)
      (ReadsBack context codec item)) :
    Ensures (Bson.array <$> Stored.items context values codec)
      (ReadsBack context (.list codec) (.array values)) := by
  rw [Stored.items_eq]
  apply Ensures.map
  refine (mapM_forall₂ fun item member => orNull_readsBack (each item member)).weaken
    fun stored parts => ⟨by simp [Bson.elementType], fun depth enough => ?_⟩
  obtain ⟨level, rfl⟩ := level_of_enough enough
  have reads : List.Forall₂ (fun value form => ∃ back,
      Yields (Meaning.nullable (Meaning.value context level codec) form) back ∧
        back.Alike value) values stored := by
    refine (List.forall₂_iff_get.mpr ⟨parts.length_eq, fun place first second => ?_⟩)
    have shorter := Bson.tokens_length_item (List.get_mem stored ⟨place, second⟩)
    exact parts.get first second level (by omega)
  obtain ⟨backs, known, alike⟩ := mapM_readsBack reads
  exact ⟨.array backs, known.map Value.array, Value.Alike.array alike⟩

/-- Names that are new stay new when another name is added. -/
theorem fresh_append {α β : Type} {rest : Keyed α} {entries : Keyed β} {key : String}
    (fresh : ∀ entry ∈ rest, entry.1 ∉ Keyed.keys entries) (unseen : key ∉ Keyed.keys rest)
    (value : β) : ∀ entry ∈ rest, entry.1 ∉ Keyed.keys (entries ++ [(key, value)]) := by
  intro entry member again
  have parts : entry.1 ∈ Keyed.keys entries ∨ entry.1 = key := by
    simpa [Keyed.keys] using again
  rcases parts with before | same
  · exact fresh entry member before
  · exact unseen (same ▸ List.mem_map_of_mem member)

/-- Storing named parts one after the other gives them in order, under the same names. -/
theorem named_forall₂ {step : String × Value → SessionM Bson} {related : Value → Bson → Prop} :
    ∀ {values : List (String × Value)} {document : Document},
      Keyed.Distinct values → (∀ entry ∈ values, entry.1 ∉ Keyed.keys document) →
      (∀ entry ∈ values, Ensures (step entry) (related entry.2)) →
      Ensures (values.foldlM (fun document entry => do
        let stored ← step entry
        pure (Keyed.insert entry.1 stored document)) document) fun last =>
          ∃ added, last = document ++ added ∧
            List.Forall₂ (fun one other => one.1 = other.1 ∧ related one.2 other.2) values added
  | [], document, _, _, _ => by
    rw [List.foldlM_nil]
    exact Ensures.pure ⟨[], by simp, .nil⟩
  | entry :: rest, document, apart, fresh, each => by
    rw [List.foldlM_cons, bind_assoc]
    refine (each entry (by simp)).bind fun stored known => ?_
    have first := fresh entry (by simp)
    rw [pure_bind, Keyed.insert_new first]
    obtain ⟨unseen, others⟩ := Keyed.distinct_cons.mp apart
    have later := fresh_append (fun other member => fresh other (by simp [member])) unseen stored
    refine (named_forall₂ others later fun other member => each other (by simp [member])).weaken
      fun last walked => ?_
    obtain ⟨added, same, parts⟩ := walked
    refine ⟨(entry.1, stored) :: added, ?_, .cons ⟨rfl, known⟩ parts⟩
    rw [same, List.append_assoc, List.singleton_append]

/-- Named parts that are read back one by one. -/
theorem entries_readsBack {read : Bson → SessionM Value} :
    ∀ {values : List (String × Value)} {stored : Document} {found : Keyed Value},
      Keyed.Distinct stored → (∀ entry ∈ stored, entry.1 ∉ Keyed.keys found) →
      List.Forall₂ (fun value form => value.1 = form.1 ∧
        ∃ back, Yields (read form.2) back ∧ back.Alike value.2) values stored →
      ∃ backs, Yields (stored.foldlM (Meaning.entry read) found) (found ++ backs) ∧
        List.Forall₂ (fun one other => one.1 = other.1 ∧ one.2.Alike other.2) backs values
  | _, _, found, _, _, .nil => ⟨[], by
      rw [List.foldlM_nil, List.append_nil]
      exact Yields.pure found, .nil⟩
  | value :: values, form :: stored, found, apart, fresh, .cons first rest => by
    obtain ⟨named, back, known, alike⟩ := first
    have unused := fresh form (by simp)
    obtain ⟨unseen, others⟩ := Keyed.distinct_cons.mp apart
    have later := fresh_append (fun other member => fresh other (by simp [member])) unseen back
    obtain ⟨backs, walked, parts⟩ := entries_readsBack others later rest
    refine ⟨(form.1, back) :: backs, ?_, .cons ⟨named.symm, alike⟩ parts⟩
    rw [List.foldlM_cons, ← List.singleton_append, ← List.append_assoc]
    refine Yields.bind ?_ walked
    rw [Meaning.entry, ← Keyed.insert_new unused]
    exact known.bind (Yields.pure (Keyed.insert form.1 back found))

/-- A map reads back where its values do. -/
theorem named_readsBack {values : List (String × Value)} (apart : Keyed.Distinct values)
    (each : ∀ entry ∈ values, Ensures (Stored.value context entry.2 codec)
      (ReadsBack context codec entry.2)) :
    Ensures (Bson.document <$> Stored.named context values codec [])
      (ReadsBack context (.map codec) (.map values)) := by
  rw [Stored.named_eq]
  apply Ensures.map
  refine (named_forall₂ apart (by simp [Keyed.keys])
    fun entry member => orNull_readsBack (each entry member)).weaken fun stored parts => ?_
  obtain ⟨_, rfl, parts⟩ := parts
  have distinct : Keyed.Distinct stored := by
    rw [Keyed.Distinct, ← Value.keys_of_forall₂ parts]
    exact apart
  refine ⟨by simp [Bson.elementType], fun depth enough => ?_⟩
  obtain ⟨level, rfl⟩ := level_of_enough enough
  have reads : List.Forall₂ (fun value form => value.1 = form.1 ∧ ∃ back,
      Yields (Meaning.nullable (Meaning.value context level codec) form.2) back ∧
        back.Alike value.2) values stored := by
    refine (List.forall₂_iff_get.mpr ⟨parts.length_eq, fun place first second => ?_⟩)
    have shorter := Bson.tokens_length_entry (List.get_mem stored ⟨place, second⟩)
    obtain ⟨named, known⟩ := parts.get first second
    exact ⟨named, known level (by omega)⟩
  have fresh : ∀ entry ∈ stored, entry.1 ∉ Keyed.keys ([] : Keyed Value) := by simp [Keyed.keys]
  obtain ⟨backs, known, alike⟩ := entries_readsBack distinct fresh reads
  exact ⟨.map backs, known.map Value.map, Value.Alike.map apart alike⟩

end ReadsBack

end EntityMapping
