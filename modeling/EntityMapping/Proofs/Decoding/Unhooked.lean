import EntityMapping.Proofs.Decoding.Reading
import EntityMapping.Proofs.Lifecycle.Silent
/-!
# Reading without hooks

Where no hook runs, reading a stored value has no effect and depends on nothing but the
value: it ends alike from every session, and at every depth that is not less than the
count of its tokens. So a value that is read inside a document is read as it is by
itself.
-/

namespace EntityMapping

/-- The outcome of a steady step is a steady result. -/
theorem SessionM.steady_attempt {α : Type} {action : SessionM α} (steady : Steady action) :
    Steady (SessionM.attempt action) := by
  intro session outcome after ran other
  rw [perform_attempt] at ran ⊢
  obtain ⟨rfl, -⟩ := Prod.mk.inj ran
  rw [steady session (perform action session).1 _ rfl other]

namespace Meaning

variable {child : Codec → Bson → SessionM Value}

/-- The value of a field is read in one way where values are. -/
theorem fieldValue_steady (each : ∀ codec stored, Steady (child codec stored))
    (model : EntityModel) (field : Field) (stored : Bson) :
    Steady (fieldValue child model field stored) := by
  unfold fieldValue
  split
  · exact Steady.pure _
  refine (SessionM.steady_ofExcept _).andThen fun codec => ?_
  refine (SessionM.steady_attempt (each codec stored)).andThen fun outcome => ?_
  split
  · exact Steady.pure _
  · split
    · exact (each .any stored).andThen fun raw => SessionM.steady_ofExcept _
    · exact Steady.throw _

/-- An entry is read in one way where values are. -/
theorem property_steady (each : ∀ codec stored, Steady (child codec stored))
    (model : EntityModel) (entity : Entity) (stored : String × Bson) :
    Steady (property child model entity stored) := by
  unfold property
  split
  · exact Steady.pure entity
  · split
    · exact (fieldValue_steady each model _ _).map _
    · exact Steady.pure entity

/-- The entity of a model is read in one way where values are. -/
theorem properties_steady (each : ∀ codec stored, Steady (child codec stored))
    (model : EntityModel) (document : Document) : Steady (properties child model document) :=
  Steady.foldlM (fun entity stored _ => property_steady each model entity stored) _

end Meaning

namespace Mapper.Silent

variable {context : MappingContext}

/-- An entity is read in one way where values are. -/
theorem reading_entity_steady (silent : context.mapper.Silent)
    {child : Codec → Bson → SessionM Value} (each : ∀ codec stored, Steady (child codec stored))
    {declared : EntityModel} (registered : declared ∈ context.mapper.models)
    (stored : List (String × Bson)) :
    Steady (Meaning.entity context child declared false stored) := by
  rw [silent.entity registered]
  exact (SessionM.steady_ofExcept _).andThen fun model =>
    Meaning.properties_steady each model stored

/-- Every stored value is read in one way, whatever happened before. -/
theorem reading_steady (silent : context.mapper.Silent) :
    ∀ (depth : Nat) (codec : Codec) (stored : Bson),
      Steady (Meaning.value context depth codec stored)
  | 0, _, _ => Steady.throw _
  | depth + 1, codec, stored => by
    have each := silent.reading_steady depth
    have nullable : ∀ element stored,
        Steady (Meaning.nullable (Meaning.value context depth element) stored) := by
      intro element stored
      unfold Meaning.nullable
      split
      · exact Steady.pure _
      · exact each element stored
    cases codec with
    | scalar type =>
      rw [Meaning.value, Meaning.scalar]
      split
      · exact Steady.pure _
      · exact Steady.throw _
    | list element =>
      rw [Meaning.value]
      cases stored with
      | array items => exact (Steady.mapM fun item _ => nullable element item).map Value.array
      | _ => exact Steady.throw _
    | map element =>
      rw [Meaning.value]
      cases stored with
      | document entries =>
        refine (Steady.foldlM (fun found entry _ => ?_) []).map Value.map
        exact (nullable element entry.2).andThen fun value => Steady.pure _
      | _ => exact Steady.throw _
    | entity name =>
      rw [Meaning.value]
      cases stored with
      | document entries =>
        refine (SessionM.steady_ofExcept _).bind (SessionM.ensures_ofExcept _)
          fun declared located => ?_
        have registered := (Mapper.model?_some (Mapper.model_ok.mp located)).1
        exact (silent.reading_entity_steady each registered entries).map Value.ofEntity
      | _ => exact Steady.throw _
    | any =>
      rw [Meaning.value]
      cases stored with
      | document entries =>
        rw [Meaning.any]
        split
        · rename_i model recognised
          have registered := Meaning.recognise_registered recognised
          exact (silent.reading_entity_steady each registered entries).map Value.ofEntity
        · exact Steady.pure _
      | array items => exact (Steady.mapM fun item _ => each .any item).map Value.array
      | _ => exact Steady.pure _

/-- At every depth that the tokens of a value do not exceed, the value is read alike. -/
theorem reading_depth (silent : context.mapper.Silent) :
    ∀ {depth other : Nat} (codec : Codec) {stored : Bson}, stored.tokens.length ≤ depth →
      stored.tokens.length ≤ other →
      Meaning.value context depth codec stored = Meaning.value context other codec stored
  | 0, _, _, stored, deep, _ => absurd deep (Nat.not_le.mpr stored.tokens_length_pos)
  | _ + 1, 0, _, stored, _, deep => absurd deep (Nat.not_le.mpr stored.tokens_length_pos)
  | depth + 1, other + 1, codec, stored, deep, deeper => by
    have each : ∀ codec {part : Bson}, part.tokens.length < stored.tokens.length →
        Meaning.value context depth codec part = Meaning.value context other codec part := by
      intro codec part smaller
      exact silent.reading_depth codec (by omega) (by omega)
    have entity : ∀ {declared : EntityModel}, declared ∈ context.mapper.models →
        ∀ entries, stored = .document entries →
        Meaning.entity context (Meaning.value context depth) declared false entries =
          Meaning.entity context (Meaning.value context other) declared false entries := by
      rintro declared registered entries rfl
      rw [silent.entity registered, silent.entity registered]
      refine bind_congr fun model => Meaning.properties_congr (fun entry member codec => ?_) model
      exact each codec (Bson.tokens_length_entry member)
    cases codec with
    | scalar type => rw [Meaning.value, Meaning.value]
    | list element =>
      rw [Meaning.value, Meaning.value]
      refine Meaning.list_congr fun items same item member => Meaning.nullable_congr ?_
      exact each element (same ▸ Bson.tokens_length_item member)
    | map element =>
      rw [Meaning.value, Meaning.value]
      refine Meaning.map_congr fun entries same entry member => Meaning.nullable_congr ?_
      exact each element (same ▸ Bson.tokens_length_entry member)
    | entity name =>
      rw [Meaning.value, Meaning.value]
      cases stored with
      | document entries =>
        refine (SessionM.ensures_ofExcept _).bind_congr fun declared located => ?_
        have registered := (Mapper.model?_some (Mapper.model_ok.mp located)).1
        rw [entity registered entries rfl]
      | _ => rfl
    | any =>
      rw [Meaning.value, Meaning.value]
      cases stored with
      | document entries =>
        rw [Meaning.any, Meaning.any]
        cases recognised : Decoding.recognise context.mapper (Meaning.document entries) with
        | none => rfl
        | some model =>
          dsimp only
          rw [entity (Meaning.recognise_registered recognised) entries rfl]
      | array items =>
        rw [Meaning.any, Meaning.any, Meaning.items, Meaning.items,
          mapM_congr fun item member => each .any (Bson.tokens_length_item member)]
      | _ => rfl

end Mapper.Silent

namespace Mapper

variable {mapper : Mapper}

/-- Reading a stored value by a codec ends in an outcome, whatever happened before. -/
def ReadsAs (mapper : Mapper) (codec : Codec) (stored : Bson)
    (outcome : Except MappingError Value) : Prop :=
  ∀ session, (mapper.decodeValue codec (Reader.ofBson stored) session).1 = outcome

/-- A value ends in one outcome. -/
theorem ReadsAs.unique {codec : Codec} {stored : Bson} {outcome other : Except MappingError Value}
    (reads : mapper.ReadsAs codec stored outcome) (again : mapper.ReadsAs codec stored other) :
    outcome = other :=
  (reads (.start fun _ => ⟨0⟩)).symm.trans (again _)

/-- Without hooks a value inside a document is read as it is by itself. -/
theorem Silent.readsAs (silent : mapper.Silent) {depth : Nat} {codec : Codec} {stored : Bson}
    (deep : stored.tokens.length ≤ depth) {session after : Session}
    {outcome : Except MappingError Value}
    (ran : perform (Meaning.value mapper.context depth codec stored) session = (outcome, after)) :
    mapper.ReadsAs codec stored outcome := by
  have reader : (Reader.ofBson stored).rest = stored.tokens := rfl
  have own : stored.tokens.length ≤ Decoding.depthFor (Reader.ofBson stored) := by
    rw [Decoding.depthFor, reader]
    exact Nat.le_add_right _ _
  intro other
  rw [decodeValue_eq, @Silent.reading_depth mapper.context silent _ depth codec stored own deep]
  exact congrArg Prod.fst
    (@Silent.reading_steady mapper.context silent depth codec stored _ _ _ ran other)

end Mapper

end EntityMapping
