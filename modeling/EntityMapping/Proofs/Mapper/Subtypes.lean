import EntityMapping.Proofs.Mapper.RoundTrip
/-!
# Subtypes behind their supertypes

The document of an entity carries the discriminator of its own model under the key of
that model, while decoding looks under the key of the model it is asked for. A subtype
inherits the key of its supertype unless it sets one of its own. Where both look under
one key, decoding gives the kind that was stored; where they do not, the document is
taken for one of the supertype.
-/

namespace EntityMapping

namespace Stored

variable {model : EntityModel} {key : String}

/-- A property leaves the discriminator alone. -/
theorem property_key (checked : model.Checked) (active : model.activeKey = some key)
    (options : Options) (forms : Keyed PropertyForm) {field : Field}
    (declared : field ∈ model.fields) (document : Document) :
    Ensures (property options model forms document field) fun next =>
      Keyed.get? key next = Keyed.get? key document := by
  unfold property
  dsimp only
  split
  · refine (Ensures.trivial _).bind fun stored _ => ?_
    apply Ensures.pure
    apply Keyed.get?_insert_other
    intro same
    exact checked.keyFree key active (same ▸ List.mem_map_of_mem declared)
  · exact Ensures.pure rfl

/-- The document of an entity has the discriminator of its model, whatever the properties. -/
theorem entries_key (checked : model.Checked) (active : model.activeKey = some key)
    (options : Options) (forms : Keyed PropertyForm) (start : Document) :
    Ensures (entries options model forms start) fun document =>
      Keyed.get? key document = some (.string model.discriminator) := by
  refine (Ensures.trivial _).bind fun document _ => ?_
  have begins : Keyed.get? key (marked model document) = some (.string model.discriminator) := by
    rw [marked, active]
    exact Keyed.get?_insert_self key _ document
  refine Ensures.foldlM begins fun found known field member => ?_
  have declared : field ∈ model.fields := (List.mem_filter.mp member).1
  exact (property_key checked active options forms declared found).weaken fun next same =>
    same.trans known

end Stored

namespace Mapper

variable {mapper : Mapper}

/-- A mapper without hooks stores an entity with the discriminator of its model. -/
theorem Sound.toDocument_key (sound : mapper.Sound) (silent : mapper.Silent) {entity : Entity}
    {model : EntityModel} (found : mapper.model? entity.kind = some model) {key : String}
    (active : model.activeKey = some key) {session : Session} {document : Document}
    (stored : (mapper.toDocument entity session).outcome = .ok document) :
    Keyed.get? key document = some (.string model.discriminator) := by
  have member := (model?_some found).1
  rw [toDocument_eq found] at stored
  dsimp only at stored
  generalize Encoding.assignId mapper.options model entity session = assigned at stored
  obtain ⟨given, after⟩ := assigned
  have form := @Silent.ofModel mapper.context model silent member given
    (Stored.forms mapper.context given.properties)
  have marked := Stored.entries_key (sound.checked model member) active mapper.options
    (Stored.forms mapper.context given.properties) []
  dsimp only at stored
  rw [form] at stored
  exact marked after document _ (Prod.ext stored rfl)

/-- A document that carries the discriminator of a model is decoded to an entity of that
model where the model may stand for the declared one. -/
theorem Sound.fromDocument_marked (sound : mapper.Sound) (silent : mapper.Silent)
    {kind declared : String} {model : EntityModel} (found : mapper.model? kind = some model)
    (compatible : mapper.Compatible kind declared) {document : Document}
    (marked : ∀ key, model.activeKey = some key →
      Keyed.get? key document = some (.string model.discriminator))
    {session : Session} {back : Entity}
    (decoded : (mapper.fromDocument declared document session).1 = .ok back) :
    back.kind = kind := by
  have named := (model?_some found).2
  have always : Ensures (do
      let other ← SessionM.ofExcept (mapper.model declared)
      Meaning.entity mapper.context
        (Meaning.value mapper.context (Decoding.depthFor (Reader.ofDocument document)))
        other false document) fun entity => entity.kind = model.name := by
    refine (SessionM.ensures_ofExcept _).bind fun other located => ?_
    obtain ⟨registered, rfl⟩ := model?_some (model_ok.mp located)
    have read := @Silent.entity mapper.context other silent registered
    have chosen := compatible.modelOfDocument sound registered found marked
    rw [read, context_mapper, chosen]
    exact Meaning.properties_kind model document
  rw [fromDocument_eq] at decoded
  exact (always session back _ (Prod.ext decoded rfl)).trans named

/-- What a mapper without hooks stores for an entity is decoded, if it is, to an entity of the
same kind, also where another kind is asked for that looks for discriminators under the same
key. -/
theorem fromDocument_keeps_kind {plan : MapperPlan} {entity back : Entity} {declared : String}
    {document : Document} {session later : Session} (built : plan.assemble = .ok mapper)
    (silent : mapper.Silent) (compatible : mapper.Compatible entity.kind declared)
    (stored : (mapper.toDocument entity session).outcome = .ok document)
    (decoded : (mapper.fromDocument declared document later).1 = .ok back) :
    back.kind = entity.kind := by
  have sound := MapperPlan.sound_of_assemble built
  cases located : mapper.model? entity.kind with
  | none =>
    rw [toDocument_unknown located] at stored
    cases stored
  | some model =>
    have marked : ∀ key, model.activeKey = some key →
        Keyed.get? key document = some (.string model.discriminator) :=
      fun key active => sound.toDocument_key silent located active stored
    exact sound.fromDocument_marked silent located compatible marked decoded

/-- Shapes with a key of their own, circles that inherit it, and discs, which are circles. -/
def discs : MapperPlan :=
  let shape := (EntityModel.blank "Shape").declare (.discriminatorKey "shape")
  let circle := (EntityModel.blank "Circle").inherit shape
  ⟨.standard, [shape, circle, (EntityModel.blank "Disc").inherit circle], [], []⟩

/-- A disc is stored under the key of shapes and is a disc again where a shape is asked for. -/
theorem fromDocument_keeps_kind_disc : ∃ mapper document back,
    discs.assemble = .ok mapper ∧ mapper.Silent ∧ mapper.Compatible "Disc" "Shape" ∧
      (mapper.toDocument (.empty "Disc") (.start fun _ => ⟨0⟩)).outcome = .ok document ∧
      (mapper.fromDocument "Shape" document (.start fun _ => ⟨0⟩)).1 = .ok back ∧
      back.kind = "Disc" := by
  obtain ⟨mapper, built⟩ : ∃ mapper, discs.assemble = .ok mapper := ⟨_, rfl⟩
  have silent : mapper.Silent := by
    cases built
    refine ⟨rfl, fun model registered kind => ?_⟩
    rcases List.mem_cons.mp registered with rfl | registered
    · rfl
    · rcases List.mem_cons.mp registered with rfl | registered
      · rfl
      · obtain rfl := List.mem_singleton.mp registered
        rfl
  have compatible : mapper.Compatible "Disc" "Shape" := by
    cases built
    exact .inr ⟨_, _, "shape", rfl, rfl, rfl, rfl⟩
  have stored : (mapper.toDocument (.empty "Disc") (.start fun _ => ⟨0⟩)).outcome =
      .ok [("shape", .string "Disc")] := by
    cases built
    rfl
  have decoded : (mapper.fromDocument "Shape" [("shape", .string "Disc")]
      (.start fun _ => ⟨0⟩)).1 = .ok (.empty "Disc") := by
    cases built
    rfl
  exact ⟨mapper, _, _, built, silent, compatible, stored, decoded,
    fromDocument_keeps_kind built silent compatible stored decoded⟩

/-- Shapes, and circles that are shapes but set a key of their own. -/
def rekeyedCircles : MapperPlan :=
  ⟨.standard, [.blank "Shape", ((EntityModel.blank "Circle").inherit (.blank "Shape")).declare
    (.discriminatorKey "kind")], [], []⟩

/-- A circle is stored under its own key and is a mere shape where a shape is asked for. -/
theorem fromDocument_forgets_circle : ∃ mapper shape circle document back,
    rekeyedCircles.assemble = .ok mapper ∧ mapper.Silent ∧
      mapper.model? "Shape" = some shape ∧ shape.usesDiscriminator = true ∧
      mapper.model? "Circle" = some circle ∧ circle.usesDiscriminator = true ∧
      mapper.Extends "Circle" "Shape" ∧
      (mapper.toDocument (.empty "Circle") (.start fun _ => ⟨0⟩)).outcome = .ok document ∧
      (mapper.fromDocument "Shape" document (.start fun _ => ⟨0⟩)).1 = .ok back ∧
      back.kind ≠ "Circle" := by
  obtain ⟨mapper, built⟩ : ∃ mapper, rekeyedCircles.assemble = .ok mapper := ⟨_, rfl⟩
  have silent : mapper.Silent := by
    cases built
    refine ⟨rfl, fun model registered kind => ?_⟩
    rcases List.mem_cons.mp registered with rfl | registered
    · rfl
    · obtain rfl := List.mem_singleton.mp registered
      rfl
  have stored : (mapper.toDocument (.empty "Circle") (.start fun _ => ⟨0⟩)).outcome =
      .ok [("kind", .string "Circle")] := by
    cases built
    rfl
  have decoded : (mapper.fromDocument "Shape" [("kind", .string "Circle")]
      (.start fun _ => ⟨0⟩)).1 = .ok (.empty "Shape") := by
    cases built
    rfl
  have chain : mapper.Extends "Circle" "Shape" := by
    cases built
    exact .parent rfl rfl (.refl "Shape")
  obtain ⟨shape, circle, known, uses, found, used⟩ : ∃ shape circle,
      mapper.model? "Shape" = some shape ∧ shape.usesDiscriminator = true ∧
        mapper.model? "Circle" = some circle ∧ circle.usesDiscriminator = true := by
    cases built
    exact ⟨_, _, rfl, rfl, rfl, rfl⟩
  exact ⟨mapper, shape, circle, _, _, built, silent, known, uses, found, used, chain, stored,
    decoded, by decide⟩

end Mapper

end EntityMapping
