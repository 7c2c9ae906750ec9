import EntityMapping.Model.Declaration
import EntityMapping.Proofs.Decoding.Reading
import EntityMapping.Proofs.Mapper.Sound
/-!
# The kind that decoding gives

A decoded entity is of the model that is chosen for its document before any hook
runs, whether the document is probed on its stream or looked at as a whole. The
choice trusts the stored discriminator: it is looked up among the values of all
models. So the entity is of the requested kind or of one that extends it exactly
when the stored value stands for such a kind, and nothing else sees to that.
-/

namespace EntityMapping

/-- A kind is another one, or it is registered and the kind its model extends is or
extends the other one. -/
inductive Mapper.Extends (mapper : Mapper) : String → String → Prop where
  /-- Every kind is itself. -/
  | refl (kind : String) : Extends mapper kind kind
  /-- A model extends what its parent is or extends. -/
  | parent {kind parent ancestor : String} {model : EntityModel}
    (found : mapper.model? kind = some model) (declared : model.parent = some parent)
    (chain : Extends mapper parent ancestor) : Extends mapper kind ancestor

/-- Whatever text a document stores as the discriminator of a kind stands for that kind
or one that extends it, if it stands for any. -/
def Mapper.SelectsWithin (mapper : Mapper) (kind : String) (document : Document) : Prop :=
  ∀ model key value name, mapper.model? kind = some model → model.activeKey = some key →
    Keyed.get? key document = some (.string value) →
    mapper.discriminators.lookup value = some name → mapper.Extends name kind

namespace Meaning

variable {context : MappingContext} {child : Codec → Bson → SessionM Value}

/-- An entry of a document does not change the kind of the entity. -/
theorem property_kind (model : EntityModel) (entity : Entity) (stored : String × Bson) :
    Ensures (property child model entity stored) fun found => found.kind = entity.kind := by
  unfold property
  split
  · exact Ensures.pure rfl
  · split
    · exact Ensures.map ((Ensures.trivial _).weaken fun value _ => entity.set_kind _ value)
    · exact Ensures.pure rfl

/-- The entity of a model is of the kind of the model. -/
theorem properties_kind (model : EntityModel) (document : Document) :
    Ensures (properties child model document) fun entity => entity.kind = model.name :=
  Ensures.foldlM rfl fun entity known stored _ =>
    (property_kind model entity stored).weaken fun _ same => same.trans known

/-- Hooks do not change the kind of the entity. -/
theorem hooked_kind (model : EntityModel) (stored : Document) :
    Ensures (hooked context child model stored) fun entity => entity.kind = model.name := by
  refine (Ensures.trivial _).bind fun changed _ => ?_
  refine (properties_kind model changed).bind fun entity known => ?_
  exact (Ensures.trivial _).bind fun _ _ => Ensures.pure known

/-- A model that is chosen for a document is registered. -/
theorem registered_of_chosen {mapper : Mapper} {declared model : EntityModel}
    (registered : declared ∈ mapper.models) {document : Document}
    (chosen : Decoding.modelOfDocument mapper declared document = .ok model) :
    model ∈ mapper.models := by
  unfold Decoding.modelOfDocument Mapper.modelForDiscriminator at chosen
  split at chosen
  · exact Except.ok.inj chosen ▸ registered
  · split at chosen
    · split at chosen
      · rename_i found looked
        obtain ⟨name, -, known⟩ := Option.bind_eq_some_iff.mp looked
        exact Except.ok.inj chosen ▸ (Mapper.model?_some known).1
      · cases chosen
    · cases chosen
    · exact Except.ok.inj chosen ▸ registered

/-- Choosing a model for a document ends in a registered one. -/
theorem chosen_registered {mapper : Mapper} {declared : EntityModel}
    (registered : declared ∈ mapper.models) (document : Document) :
    Ensures (SessionM.ofExcept (Decoding.modelOfDocument mapper declared document))
      fun model => model ∈ mapper.models :=
  (SessionM.ensures_ofExcept _).weaken fun _ => registered_of_chosen registered

/-- A recognised model is registered. -/
theorem recognise_registered {mapper : Mapper} {document : Document} {model : EntityModel}
    (recognised : Decoding.recognise mapper document = some model) : model ∈ mapper.models := by
  obtain ⟨key, -, found⟩ := List.exists_of_findSome?_eq_some recognised
  simp only [Option.bind_eq_bind, Option.bind_eq_some_iff] at found
  obtain ⟨value, -, name, -, candidate, known, chosen⟩ := found
  split at chosen
  · exact Option.some.inj chosen ▸ (Mapper.model?_some known).1
  · cases chosen

/-- The entity in a document with distinct names is of the model chosen for it. -/
theorem entity_kind (declared : EntityModel) {stored : Document} (distinct : stored.Distinct) :
    Ensures (entity context child declared false stored) fun entity => ∃ model,
      Decoding.modelOfDocument context.mapper declared stored = .ok model ∧
        entity.kind = model.name := by
  unfold Meaning.entity withHooks
  rw [document_distinct distinct]
  simp only [Bool.false_eq_true, if_false, if_true]
  split
  · refine (SessionM.ensures_ofExcept _).bind fun model chosen => ?_
    exact (hooked_kind model stored).weaken fun _ known => ⟨model, chosen, known⟩
  · refine (SessionM.ensures_ofExcept _).bind fun model chosen => ?_
    split
    · exact (hooked_kind model stored).weaken fun _ known => ⟨model, chosen, known⟩
    · exact (properties_kind model stored).weaken fun _ known => ⟨model, chosen, known⟩

end Meaning

namespace Mapper

variable {mapper : Mapper} {kind : String} {document : Document} {session : Session}
  {entity : Entity}

/-- A decoded entity is of the model chosen for its document. -/
theorem fromDocument_kind (distinct : document.Distinct)
    (decoded : (mapper.fromDocument kind document session).1 = .ok entity) :
    ∃ declared model, mapper.model? kind = some declared ∧
      Decoding.modelOfDocument mapper declared document = .ok model ∧
      entity.kind = model.name := by
  have chosen : Ensures (do
      let declared ← SessionM.ofExcept (mapper.model kind)
      Meaning.entity mapper.context
        (Meaning.value mapper.context (Decoding.depthFor (Reader.ofDocument document)))
        declared false document) fun entity => ∃ declared model,
          mapper.model? kind = some declared ∧
          Decoding.modelOfDocument mapper declared document = .ok model ∧
          entity.kind = model.name := by
    refine (SessionM.ensures_ofExcept _).bind fun declared found => ?_
    exact (Meaning.entity_kind declared distinct).weaken fun _ known =>
      ⟨declared, known.choose, model_ok.mp found, known.choose_spec⟩
  rw [fromDocument_eq] at decoded
  exact chosen session entity _ (Prod.ext decoded rfl)

/-- A decoded entity is of a registered kind. It is of the requested kind or one that
extends it exactly when the stored discriminator stands for such a kind. -/
theorem fromDocument_extends_iff (distinct : document.Distinct)
    (decoded : (mapper.fromDocument kind document session).1 = .ok entity) :
    (mapper.model? entity.kind).isSome = true ∧
      (mapper.Extends entity.kind kind ↔ mapper.SelectsWithin kind document) := by
  obtain ⟨declared, model, found, chosen, known⟩ := fromDocument_kind distinct decoded
  have plain : declared = model → (∀ key value, declared.activeKey = some key →
      Keyed.get? key document ≠ some (.string value)) →
      (mapper.model? entity.kind).isSome = true ∧
        (mapper.Extends entity.kind kind ↔ mapper.SelectsWithin kind document) := by
    rintro rfl unmarked
    have same : entity.kind = kind := known.trans (model?_some found).2
    refine ⟨by rw [same, found]; rfl, fun _ => ?_, fun _ => by rw [same]; exact .refl kind⟩
    intro other key value name here active stored
    obtain rfl := Option.some.inj (found.symm.trans here)
    exact absurd stored (unmarked key value active)
  unfold Decoding.modelOfDocument at chosen
  split at chosen
  · rename_i inactive
    exact plain (Except.ok.inj chosen) fun key value active => by simp [inactive] at active
  · rename_i key active
    split at chosen
    · rename_i value stored
      unfold modelForDiscriminator at chosen
      split at chosen
      · rename_i selected looked
        obtain rfl := Except.ok.inj chosen
        obtain ⟨name, meant, registered⟩ := Option.bind_eq_some_iff.mp looked
        have same : entity.kind = name := known.trans (model?_some registered).2
        rw [same]
        refine ⟨by rw [registered]; rfl, fun extends' => ?_, fun within => ?_⟩
        · intro other otherKey otherValue otherName here otherActive otherStored otherMeant
          obtain rfl := Option.some.inj (found.symm.trans here)
          obtain rfl := Option.some.inj (active.symm.trans otherActive)
          obtain ⟨rfl⟩ := Option.some.inj (stored.symm.trans otherStored)
          obtain rfl := Option.some.inj (meant.symm.trans otherMeant)
          exact extends'
        · exact within declared key value name found active stored meant
      · cases chosen
    · cases chosen
    · rename_i unstored
      exact plain (Except.ok.inj chosen) fun other value otherActive stored => by
        obtain rfl := Option.some.inj (active.symm.trans otherActive)
        rw [unstored] at stored
        cases stored

/-- A shape, a circle that extends it, and a note that has nothing to do with either. -/
def shapesAndNotes : MapperPlan :=
  ⟨.standard,
    [.blank "Shape", (EntityModel.blank "Circle").inherit (.blank "Shape"), .blank "Note"],
    [], []⟩

/-- A circle is decoded where a shape is requested, and it extends the shape. -/
theorem fromDocument_extends_circle : ∃ mapper entity,
    shapesAndNotes.assemble = .ok mapper ∧
      (mapper.fromDocument "Shape" [("_t", .string "Circle")] (.start fun _ => ⟨0⟩)).1 =
        .ok entity ∧
      (mapper.model? entity.kind).isSome = true ∧
      (mapper.Extends entity.kind "Shape" ↔
        mapper.SelectsWithin "Shape" [("_t", .string "Circle")]) :=
  ⟨_, _, rfl, rfl, @fromDocument_extends_iff _ "Shape" _ (.start fun _ => ⟨0⟩) _
    (by simp [Document.Distinct, Bson.Distinct, Bson.EntriesDistinct, Keyed.Distinct, Keyed.keys])
    rfl⟩

/-- A model without a parent extends nothing but itself. -/
theorem Extends.of_orphan {kind ancestor : String} {model : EntityModel}
    (found : mapper.model? kind = some model) (orphan : model.parent = none)
    (chain : mapper.Extends kind ancestor) : kind = ancestor := by
  cases chain with
  | refl => rfl
  | parent known declared _ =>
    obtain rfl := Option.some.inj (found.symm.trans known)
    rw [orphan] at declared
    cases declared

/-- A note is decoded where a shape is requested, though it does not extend the shape. -/
theorem fromDocument_note_for_shape : ∃ mapper entity,
    shapesAndNotes.assemble = .ok mapper ∧ (mapper.model? "Shape").isSome = true ∧
      (mapper.fromDocument "Shape" [("_t", .string "Note")] (.start fun _ => ⟨0⟩)).1 =
        .ok entity ∧
      ¬ mapper.Extends entity.kind "Shape" := by
  refine ⟨_, _, rfl, rfl, rfl, fun chain => ?_⟩
  have same := chain.of_orphan rfl rfl
  exact absurd same (by decide)

end Mapper

end EntityMapping
