import EntityMapping.Proofs.Mapper.Sound
/-!
# The discriminator keys of a mapper

A model without a discriminator key of its own takes the common one when it is
registered, and a mapper keeps a list of the keys that its models write. So a model
that uses a discriminator has a key to write it under, and the list holds the common
key and the keys of such models, and no other.
-/

namespace EntityMapping

namespace Mapper

/-- What a mapper knows about discriminator keys. -/
structure KnowsKeys (mapper : Mapper) : Prop where
  /-- Every model has a key. -/
  keyed : ∀ model ∈ mapper.models, model.discriminatorKey ≠ none
  /-- The keys under which discriminators are written are listed. -/
  listed : ∀ model ∈ mapper.models, ∀ key, model.activeKey = some key →
    key ∈ mapper.discriminatorKeys
  /-- Every listed key is the common one, or a discriminator is written under it. -/
  needed : ∀ key ∈ mapper.discriminatorKeys, key = mapper.options.discriminatorKey ∨
    ∃ model ∈ mapper.models, model.activeKey = some key

variable {mapper after : Mapper}

/-- A key is added to the known ones, which stay. -/
theorem mem_addKey {keys : List String} {key other : String} :
    other ∈ addKey keys key ↔ other ∈ keys ∨ other = key := by
  unfold addKey
  split
  · rename_i known
    have member : key ∈ keys := by simpa using known
    constructor
    · exact .inl
    · rintro (before | rfl)
      · exact before
      · exact member
  · simp

/-- A discriminator is registered with its key, if the model uses one. -/
theorem withDiscriminator_keys {model : EntityModel}
    (done : mapper.withDiscriminator model = .ok after) :
    after.models = mapper.models ∧ after.options = mapper.options ∧
      after.discriminatorKeys = match model.activeKey with
        | some key => addKey mapper.discriminatorKeys key
        | none => mapper.discriminatorKeys := by
  unfold withDiscriminator at done
  unfold EntityModel.activeKey
  cases used : model.usesDiscriminator with
  | true =>
    rw [if_pos used] at done
    obtain ⟨table, -, done⟩ := ok_of_bind done
    cases done
    exact ⟨rfl, rfl, rfl⟩
  | false =>
    simp only [used, Bool.false_eq_true, if_false] at done
    cases done
    exact ⟨rfl, rfl, rfl⟩

/-- What a registration does to keys: the last model has one, and it is listed if a
discriminator is written under it. -/
theorem withModel_keys {model : EntityModel} (done : mapper.withModel model = .ok after) :
    ∃ resolved, after.models = mapper.models ++ [resolved] ∧
      after.options = mapper.options ∧ resolved.discriminatorKey ≠ none ∧
      after.discriminatorKeys = match resolved.activeKey with
        | some key => addKey mapper.discriminatorKeys key
        | none => mapper.discriminatorKeys := by
  unfold withModel at done
  split at done
  · cases done
  obtain ⟨⟨⟩, -, done⟩ := ok_of_bind done
  obtain ⟨resolved, found, done⟩ := ok_of_bind done
  obtain ⟨marked, registered, done⟩ := ok_of_bind done
  cases done
  obtain ⟨models, options, keys⟩ := withDiscriminator_keys registered
  have keyed : resolved.discriminatorKey ≠ none := by
    obtain ⟨fields, -, found⟩ := ok_of_bind found
    cases found
    unfold EntityModel.withDefaultKey
    split
    · rename_i own
      simp [own]
    · simp
  exact ⟨resolved, by rw [models], options, keyed, keys⟩

/-- Registering a model keeps what is known about keys. -/
theorem KnowsKeys.withModel (knows : mapper.KnowsKeys) {model : EntityModel}
    (done : mapper.withModel model = .ok after) : after.KnowsKeys := by
  obtain ⟨resolved, models, options, keyed, keys⟩ := withModel_keys done
  have member : ∀ key, key ∈ after.discriminatorKeys ↔
      key ∈ mapper.discriminatorKeys ∨ resolved.activeKey = some key := by
    intro key
    rw [keys]
    cases resolved.activeKey with
    | none => simp
    | some own => simp [mem_addKey, eq_comm]
  constructor
  · rw [models, List.forall_mem_append, List.forall_mem_singleton]
    exact ⟨knows.keyed, keyed⟩
  · rw [models, List.forall_mem_append, List.forall_mem_singleton]
    constructor
    · intro other known key active
      exact (member key).mpr (.inl (knows.listed other known key active))
    · exact fun key active => (member key).mpr (.inr active)
  · intro key listed
    rw [options, models]
    rcases (member key).mp listed with before | active
    · refine (knows.needed key before).imp_right fun used => ?_
      obtain ⟨other, known, active⟩ := used
      exact ⟨other, List.mem_append_left _ known, active⟩
    · exact .inr ⟨resolved, by simp, active⟩

/-- Registering an alias keeps what is known about keys. -/
theorem KnowsKeys.withAlias (knows : mapper.KnowsKeys) {alternative : String × String}
    (done : mapper.withAlias alternative = .ok after) : after.KnowsKeys := by
  obtain ⟨table, -, -, rfl⟩ := withAlias_ok done
  exact ⟨knows.keyed, knows.listed, knows.needed⟩

/-- A mapper without models knows the common key. -/
theorem KnowsKeys.bare (plan : MapperPlan) : (Mapper.bare plan).KnowsKeys where
  keyed := by simp [Mapper.bare]
  listed := by simp [Mapper.bare]
  needed := by simp [Mapper.bare]

/-- A model that uses a discriminator writes it under its key. -/
theorem KnowsKeys.activeKey (knows : mapper.KnowsKeys) {model : EntityModel}
    (member : model ∈ mapper.models) (used : model.usesDiscriminator = true) :
    ∃ key, model.activeKey = some key := by
  rw [EntityModel.activeKey, if_pos used]
  exact Option.ne_none_iff_exists'.mp (knows.keyed model member)

/-- Every model writes its discriminator, under the common key. -/
def SharesKey (mapper : Mapper) : Prop :=
  ∀ model ∈ mapper.models, model.activeKey = some mapper.options.discriminatorKey

/-- Whether models share the common key is decided by looking at each. -/
instance (mapper : Mapper) : Decidable mapper.SharesKey :=
  inferInstanceAs (Decidable (∀ model ∈ mapper.models,
    model.activeKey = some mapper.options.discriminatorKey))

/-- The common key is the only one where the models share it. -/
theorem KnowsKeys.only (knows : mapper.KnowsKeys) (shares : mapper.SharesKey) :
    ∀ key ∈ mapper.discriminatorKeys, key = mapper.options.discriminatorKey := by
  intro key listed
  rcases knows.needed key listed with common | ⟨model, member, active⟩
  · exact common
  · exact Option.some.inj (active.symm.trans (shares model member))

end Mapper

/-- An assembled mapper knows the keys of its models. -/
theorem MapperPlan.knowsKeys_of_assemble {plan : MapperPlan} {mapper : Mapper}
    (built : plan.assemble = .ok mapper) : mapper.KnowsKeys := by
  obtain ⟨registered, models, aliases⟩ := assemble_ok built
  exact foldlM_keeps (fun _ _ _ knows done => knows.withAlias done)
    (foldlM_keeps (fun _ _ _ knows done => knows.withModel done)
      (Mapper.KnowsKeys.bare plan) models) aliases

end EntityMapping
