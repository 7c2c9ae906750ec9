import EntityMapping.Mapper.Assembly
import EntityMapping.Proofs.Model.Checked
import EntityMapping.Proofs.Steps
/-!
# Assembled mappers are sound

Assembling a plan registers its models one after the other. `Registered` is what
every registration keeps; once all models are there the registry knows just their
names, and the mapper is `Sound`. Later proofs look at a mapper through these
fields only, never at how it was assembled.
-/

namespace EntityMapping

namespace Discriminators

variable {table after : Discriminators} {value entity : String}

/-- A registered value stands for its entity. -/
theorem lookup_register (registered : table.register value entity = .ok after) :
    after.lookup value = some entity := by
  unfold register at registered
  split at registered
  · rename_i known found
    split at registered
    · rename_i same
      cases registered
      rw [found, same]
    · cases registered
  · cases registered
    exact Keyed.get?_insert_self value entity table.entries

/-- Registering a value leaves all others as they were. -/
theorem lookup_register_other (registered : table.register value entity = .ok after)
    {other : String} (different : other ≠ value) : after.lookup other = table.lookup other := by
  unfold register at registered
  split at registered
  · split at registered
    · cases registered
      rfl
    · cases registered
  · cases registered
    exact Keyed.get?_insert_other different entity table.entries

/-- A value keeps its entity whatever is registered. -/
theorem lookup_register_known (registered : table.register value entity = .ok after)
    {other name : String} (known : table.lookup other = some name) :
    after.lookup other = some name := by
  by_cases same : other = value
  · subst same
    unfold register at registered
    rw [known] at registered
    dsimp only at registered
    split at registered
    · cases registered
      exact known
    · cases registered
  · rw [lookup_register_other registered same, known]

end Discriminators

namespace EntityModel

/-- The fields that a model is given codecs for: as many, each the same but for the codec. -/
theorem resolve_fields {registry : Registry} {entity : String} {fields resolved : List Field}
    (done : fields.mapM (resolveField registry entity) = .ok resolved) :
    resolved.map Field.isId = fields.map Field.isId ∧
      resolved.map Field.documentName = fields.map Field.documentName ∧
      ∀ field ∈ resolved, ∃ codec, field.codec = some codec ∧
        registry.codec field.type = .ok codec := by
  induction fields generalizing resolved with
  | nil =>
    rw [List.mapM_nil] at done
    cases done
    simp
  | cons field rest ih =>
    rw [List.mapM_cons] at done
    obtain ⟨first, here, later⟩ := ok_of_bind done
    obtain ⟨others, there, last⟩ := ok_of_bind later
    cases last
    obtain ⟨ids, names, codecs⟩ := ih there
    unfold resolveField at here
    split at here
    · rename_i codec found
      cases here
      refine ⟨by simp [ids], by simp [names], fun one member => ?_⟩
      rcases List.mem_cons.mp member with rfl | known
      · exact ⟨codec, rfl, found⟩
      · exact codecs one known
    · cases here
    · cases here

/-- Giving a model codecs changes nothing but the codecs of its fields. -/
theorem resolve_ok {registry : Registry} {model resolved : EntityModel}
    (done : model.resolve registry = .ok resolved) :
    resolved.name = model.name ∧ (model.Checked → resolved.Checked) ∧
      ∀ field ∈ resolved.fields, ∃ codec, field.codec = some codec ∧
        registry.codec field.type = .ok codec := by
  obtain ⟨fields, codecs, done⟩ := ok_of_bind done
  obtain ⟨ids, names, coded⟩ := resolve_fields codecs
  cases done
  exact ⟨rfl, fun checked => checked.congr ids names rfl, coded⟩

end EntityModel

namespace Mapper

/-- What registering models and aliases keeps. -/
structure Registered (mapper : Mapper) : Prop where
  /-- No two models have one name. -/
  namedApart : (mapper.models.map EntityModel.name).Nodup
  /-- Every model is checked. -/
  checked : ∀ model ∈ mapper.models, model.Checked
  /-- Every field has the codec of its type. -/
  resolved : ∀ model ∈ mapper.models, ∀ field ∈ model.fields, ∃ codec,
    field.codec = some codec ∧ mapper.registry.codec field.type = .ok codec
  /-- The discriminator of a model that uses one stands for the model. -/
  marked : ∀ model ∈ mapper.models, model.usesDiscriminator = true →
    mapper.discriminators.lookup model.discriminator = some model.name
  /-- Discriminators stand for models only. -/
  meant : ∀ value name, mapper.discriminators.lookup value = some name →
    (mapper.model? name).isSome

/-- A sound mapper: its registry also knows just the names of its models. -/
structure Sound (mapper : Mapper) : Prop extends Registered mapper where
  /-- The registry knows just the names of the models. -/
  known : ∀ name, mapper.registry.has name = (mapper.model? name).isSome

variable {mapper after : Mapper}

/-- A model found by a name is registered and has that name. -/
theorem model?_some {name : String} {model : EntityModel}
    (found : mapper.model? name = some model) : model ∈ mapper.models ∧ model.name = name := by
  refine ⟨List.mem_of_find?_eq_some found, ?_⟩
  simpa using List.find?_some found

/-- A required model is the one found. -/
theorem model_ok {name : String} {model : EntityModel} :
    mapper.model name = .ok model ↔ mapper.model? name = some model := by
  unfold Mapper.model
  cases mapper.model? name <;> simp

/-- A model that is required fails for one cause: it has no codec. -/
theorem model_error {name : String} {cause : MappingError}
    (failed : mapper.model name = .error cause) : cause = .noCodec name := by
  unfold Mapper.model at failed
  split at failed
  · cases failed
  · exact (Except.error.inj failed).symm

/-- A name is registered when some model has it. -/
theorem model?_isSome {name : String} :
    (mapper.model? name).isSome = true ↔ name ∈ mapper.models.map EntityModel.name := by
  simp [Mapper.model?, List.find?_isSome]

/-- A registered model is found by its name. -/
theorem Registered.model?_of_mem (registered : mapper.Registered) {model : EntityModel}
    (member : model ∈ mapper.models) : mapper.model? model.name = some model :=
  find?_of_nodup registered.namedApart member

/-- What a registration does: the model, checked and resolved, becomes the last one, and
its discriminator is registered if it uses one. -/
theorem withModel_ok {model : EntityModel} (done : mapper.withModel model = .ok after) :
    ∃ resolved table keys,
      resolved.name = model.name ∧ mapper.model? model.name = none ∧ resolved.Checked ∧
      (∀ field ∈ resolved.fields, ∃ codec, field.codec = some codec ∧
        mapper.registry.codec field.type = .ok codec) ∧
      (if resolved.usesDiscriminator then
        mapper.discriminators.register resolved.discriminator resolved.name = .ok table
      else table = mapper.discriminators) ∧
      after = { mapper with
        models := mapper.models ++ [resolved]
        discriminators := table
        discriminatorKeys := keys } := by
  unfold withModel at done
  split at done
  · cases done
  rename_i fresh
  obtain ⟨⟨⟩, passed, done⟩ := ok_of_bind done
  obtain ⟨resolved, found, done⟩ := ok_of_bind done
  obtain ⟨named, keeps, coded⟩ := EntityModel.resolve_ok found
  have checked := keeps (EntityModel.checked_of_check passed)
  obtain ⟨marked, registered, done⟩ := ok_of_bind done
  cases done
  have name : resolved.name = model.name := by
    rw [named, EntityModel.withDefaultKey]
    split <;> rfl
  unfold withDiscriminator at registered
  split at registered
  · rename_i used
    obtain ⟨table, entered, registered⟩ := ok_of_bind registered
    cases registered
    exact ⟨resolved, table, _, name, by simpa using fresh, checked, coded,
      by rw [if_pos used, entered], rfl⟩
  · rename_i unused
    cases registered
    exact ⟨resolved, mapper.discriminators, mapper.discriminatorKeys, name,
      by simpa using fresh, checked, coded, by rw [if_neg unused], rfl⟩

/-- Finding a model in a longer list of models. -/
theorem model?_append {models : List EntityModel} {model : EntityModel}
    (same : after.models = models ++ [model]) (before : mapper.models = models) (name : String) :
    after.model? name =
      (mapper.model? name).or (if model.name = name then some model else none) := by
  unfold Mapper.model?
  rw [same, before, List.find?_append, List.find?_singleton]
  simp

/-- Registering a model keeps all others as they are. -/
theorem Registered.withModel (registered : mapper.Registered) {model : EntityModel}
    (done : mapper.withModel model = .ok after) : after.Registered := by
  obtain ⟨resolved, table, keys, named, fresh, checked, coded, entered, rfl⟩ := withModel_ok done
  have lookups := @model?_append mapper { mapper with
    models := mapper.models ++ [resolved]
    discriminators := table
    discriminatorKeys := keys } mapper.models resolved rfl rfl
  have old : ∀ {value name}, mapper.discriminators.lookup value = some name →
      table.lookup value = some name := by
    intro value name known
    split at entered
    · exact Discriminators.lookup_register_known entered known
    · rw [entered, known]
  refine ⟨?_, fun one member => ?_, fun one member => ?_, fun one member used => ?_,
    fun value name known => ?_⟩
  · rw [List.map_append, List.nodup_append]
    refine ⟨registered.namedApart, by simp, ?_⟩
    intro name member other last same
    have isName : other = resolved.name := by simpa using last
    have known := model?_isSome.mpr member
    rw [same, isName, named, fresh] at known
    simp at known
  · rcases List.mem_append.mp member with before | last
    · exact registered.checked one before
    · obtain rfl := List.mem_singleton.mp last
      exact checked
  · rcases List.mem_append.mp member with before | last
    · exact registered.resolved one before
    · obtain rfl := List.mem_singleton.mp last
      exact coded
  · rcases List.mem_append.mp member with before | last
    · exact old (registered.marked one before used)
    · obtain rfl := List.mem_singleton.mp last
      rw [if_pos used] at entered
      exact Discriminators.lookup_register entered
  · rw [lookups]
    by_cases before : mapper.discriminators.lookup value = some name
    · have found := registered.meant value name before
      simp [Option.isSome_or, found]
    · have isLast : resolved.name = name := by
        split at entered
        · by_cases here : value = resolved.discriminator
          · subst here
            rw [Discriminators.lookup_register entered] at known
            exact Option.some.inj known
          · rw [Discriminators.lookup_register_other entered here] at known
            exact absurd known before
        · rw [entered] at known
          exact absurd known before
      simp [isLast]

/-- Registering an alias changes nothing but discriminators. -/
theorem withAlias_ok {alternative : String × String}
    (done : mapper.withAlias alternative = .ok after) :
    ∃ table, (mapper.model? alternative.2).isSome = true ∧
      mapper.discriminators.register alternative.1 alternative.2 = .ok table ∧
      after = { mapper with discriminators := table } := by
  obtain ⟨value, entity⟩ := alternative
  unfold withAlias at done
  dsimp only at done
  split at done
  · cases done
  · rename_i model found
    obtain ⟨table, entered, done⟩ := ok_of_bind done
    cases done
    exact ⟨table, by simp [found], entered, rfl⟩

/-- Registering an alias keeps what is registered. -/
theorem Registered.withAlias (registered : mapper.Registered) {alternative : String × String}
    (done : mapper.withAlias alternative = .ok after) : after.Registered := by
  obtain ⟨table, known, entered, rfl⟩ := withAlias_ok done
  refine ⟨registered.namedApart, registered.checked, registered.resolved,
    fun model member used => ?_, fun value name found => ?_⟩
  · exact Discriminators.lookup_register_known entered (registered.marked model member used)
  · by_cases here : value = alternative.1
    · subst here
      have same := (Discriminators.lookup_register entered).symm.trans found
      exact Option.some.inj same ▸ known
    · exact registered.meant value name
        (Discriminators.lookup_register_other entered here ▸ found)

/-- A mapper without models has nothing registered. -/
theorem Registered.bare (plan : MapperPlan) : (Mapper.bare plan).Registered where
  namedApart := List.nodup_nil
  checked := by simp [Mapper.bare]
  resolved := by simp [Mapper.bare]
  marked := by simp [Mapper.bare]
  meant := by simp [Mapper.bare, Discriminators.lookup, Discriminators.empty]

end Mapper

namespace MapperPlan

variable {plan : MapperPlan} {mapper : Mapper}

/-- Assembling checks the options, registers the models, then the aliases. -/
theorem assemble_ok (built : plan.assemble = .ok mapper) :
    ∃ registered, plan.models.foldlM Mapper.withModel (Mapper.bare plan) = .ok registered ∧
      plan.aliases.foldlM Mapper.withAlias registered = .ok mapper := by
  unfold assemble at built
  split at built
  · cases built
  · exact ok_of_bind built

/-- An assembled mapper has the settings of its plan, its interceptors, and a registry of
the names of its models. -/
theorem assemble_settings (built : plan.assemble = .ok mapper) :
    mapper.options = plan.options ∧ mapper.interceptors = plan.interceptors ∧
      mapper.registry = ⟨plan.models.map EntityModel.name⟩ := by
  obtain ⟨registered, models, aliases⟩ := assemble_ok built
  let settled := fun mapper : Mapper => mapper.options = plan.options ∧
    mapper.interceptors = plan.interceptors ∧
      mapper.registry = ⟨plan.models.map EntityModel.name⟩
  have byModel : ∀ start model after, settled start → Mapper.withModel start model = .ok after →
      settled after := by
    intro start model after settings done
    obtain ⟨resolved, table, keys, -, -, -, -, -, rfl⟩ := Mapper.withModel_ok done
    exact settings
  have byAlias : ∀ start alternative after, settled start →
      Mapper.withAlias start alternative = .ok after → settled after := by
    intro start alternative after settings done
    obtain ⟨table, -, -, rfl⟩ := Mapper.withAlias_ok done
    exact settings
  exact foldlM_keeps byAlias (foldlM_keeps byModel ⟨rfl, rfl, rfl⟩ models) aliases

/-- The models of a mapper have the names of those registered one after the other. -/
theorem names_withModels {models : List EntityModel} {start after : Mapper}
    (done : models.foldlM Mapper.withModel start = .ok after) :
    after.models.map EntityModel.name =
      start.models.map EntityModel.name ++ models.map EntityModel.name := by
  induction models generalizing start with
  | nil =>
    rw [List.foldlM_nil] at done
    cases done
    simp
  | cons model rest ih =>
    rw [List.foldlM_cons] at done
    obtain ⟨next, first, later⟩ := ok_of_bind done
    obtain ⟨resolved, table, keys, named, -, -, -, -, rfl⟩ := Mapper.withModel_ok first
    rw [ih later]
    simp [named]

/-- An assembled mapper is sound. -/
theorem sound_of_assemble (built : plan.assemble = .ok mapper) : mapper.Sound := by
  have settings := assemble_settings built
  obtain ⟨registered, models, aliases⟩ := assemble_ok built
  have whole : mapper.Registered :=
    foldlM_keeps (fun _ _ _ keeps done => keeps.withAlias done)
      (foldlM_keeps (fun _ _ _ keeps done => keeps.withModel done)
        (Mapper.Registered.bare plan) models) aliases
  have names : mapper.models.map EntityModel.name = plan.models.map EntityModel.name := by
    have byAlias : ∀ start alternative after,
        start.models.map EntityModel.name = plan.models.map EntityModel.name →
        Mapper.withAlias start alternative = .ok after →
        after.models.map EntityModel.name = plan.models.map EntityModel.name := by
      intro start alternative after same done
      obtain ⟨table, -, -, rfl⟩ := Mapper.withAlias_ok done
      exact same
    apply foldlM_keeps byAlias ?_ aliases
    rw [names_withModels models]
    rfl
  refine ⟨whole, fun name => ?_⟩
  rw [settings.2.2, Registry.has, Bool.eq_iff_iff, Mapper.model?_isSome, names]
  simp

end MapperPlan

end EntityMapping
