import EntityMapping.Model.Declaration
import EntityMapping.Proofs.Mapper.Keys
import Mathlib.Data.List.Forall2
import Mathlib.Data.List.Pairwise
/-!
# Which plans are accepted

Assembling a plan checks, resolves and registers in one pass and stops at the first fault.
`MapperPlan.Valid` says without that pass which plans have no fault: every model is sound by
itself, the types of its fields name models of the plan, and no discriminator value is given to
two models. Assembling succeeds for exactly these plans, in whatever order the models come, and
what it makes is equipped: its fields have their codecs and its discriminators their models.

A model or an alias is registered exactly where it fits by itself and agrees with those before it.
What the mapper holds then, `Carries`, is all that the next registration depends on, and
validity is what remains of the fitting and agreeing once the order is forgotten.
-/

namespace EntityMapping

/-- A type names an entity, at whatever depth. -/
def FieldType.Names (name : String) : FieldType → Prop
  | .entity other => other = name
  | .list element => Names name element
  | .map value => Names name value
  | _ => False

/-- The discriminator value that is given to a model, if it uses one. -/
def EntityModel.marks (model : EntityModel) : List (String × String) :=
  if model.usesDiscriminator then [(model.discriminator, model.name)] else []

/-- Two lists of values with their models give no value to two models. -/
def Agree (left right : List (String × String)) : Prop :=
  ∀ one ∈ left, ∀ other ∈ right, one.1 = other.1 → one.2 = other.2

/-- A model gives its one value to one name. -/
theorem EntityModel.agree_marks (model : EntityModel) : Agree model.marks model.marks := by
  unfold marks
  split <;> simp [Agree]

/-- Agreeing does not depend on which list is first. -/
theorem Agree.symm {left right : List (String × String)} (agree : Agree left right) :
    Agree right left :=
  fun one here other there same => (agree other there one here same.symm).symm

namespace MapperPlan

/-- The names of the models. -/
def names (plan : MapperPlan) : List String := plan.models.map EntityModel.name

/-- The discriminator values with the models that they are given to, by models and aliases. -/
def marks (plan : MapperPlan) : List (String × String) :=
  plan.models.flatMap EntityModel.marks ++ plan.aliases

/-- The key under which the discriminator of a model is written: its own or the common one. -/
def keyOf (plan : MapperPlan) (model : EntityModel) : String :=
  model.discriminatorKey.getD plan.options.discriminatorKey

/-- A plan without fault. -/
structure Valid (plan : MapperPlan) : Prop where
  /-- The options are usable. -/
  options : plan.options.check = .ok ()
  /-- No two models have one name. -/
  namedApart : plan.names.Nodup
  /-- No model has two ids. -/
  oneId : ∀ model ∈ plan.models, (model.fields.filter fun field => field.isId).length ≤ 1
  /-- No two fields of a model are stored under one key. -/
  storedApart : ∀ model ∈ plan.models, (model.fields.map Field.documentName).Nodup
  /-- A model that uses a discriminator stores no field under its key. -/
  keyFree : ∀ model ∈ plan.models, model.usesDiscriminator = true →
    plan.keyOf model ∉ model.fields.map Field.documentName
  /-- The entities that types of fields name are models. -/
  known : ∀ model ∈ plan.models, ∀ field ∈ model.fields, ∀ name,
    field.type.Names name → name ∈ plan.names
  /-- Aliases are given to models. -/
  aimed : ∀ alternative ∈ plan.aliases, alternative.2 ∈ plan.names
  /-- No value is given to two models. -/
  unambiguous : ∀ value first second,
    (value, first) ∈ plan.marks → (value, second) ∈ plan.marks → first = second

/-- A registered model is the given one with its key settled and a codec for every field. -/
def Settles (plan : MapperPlan) (given model : EntityModel) : Prop :=
  ∃ fields, List.Forall₂ (fun declared field => ∃ codec, codec.fieldType = declared.type ∧
      field = { declared with codec := some codec }) given.fields fields ∧
    model = { given with discriminatorKey := some (plan.keyOf given), fields := fields }

/-- What the mapper of a plan is sure of. -/
structure Equips (plan : MapperPlan) (mapper : Mapper) : Prop where
  /-- The models are the given ones, with their keys and with codecs for the declared types. -/
  settled : List.Forall₂ plan.Settles plan.models mapper.models
  /-- The discriminator of a model that uses one is recognised as that of the model. -/
  recognised : ∀ model ∈ mapper.models, model.usesDiscriminator = true → ∀ entity,
    mapper.modelForDiscriminator entity model.discriminator = .ok model
  /-- The registered values are the given ones, and each stands for a registered model. -/
  meant : ∀ value name, mapper.discriminators.lookup value = some name ↔ (value, name) ∈ plan.marks
  /-- Every registered value yields a registered model. -/
  yields : ∀ value name, mapper.discriminators.lookup value = some name → ∀ entity,
    ∃ model ∈ mapper.models, model.name = name ∧
      mapper.modelForDiscriminator entity value = .ok model
  /-- The common key is the first of the keys. -/
  commonFirst : mapper.discriminatorKeys.head? = some plan.options.discriminatorKey
  /-- No key is there twice. -/
  keysApart : mapper.discriminatorKeys.Nodup
  /-- The key of every model that uses a discriminator is there. -/
  listed : ∀ model ∈ mapper.models, model.usesDiscriminator = true →
    ∃ key ∈ mapper.discriminatorKeys, model.discriminatorKey = some key

end MapperPlan

/-- There is a codec for exactly the types that name known entities only. -/
theorem Registry.exists_codec_iff {registry : Registry} {type : FieldType} :
    (∃ codec, registry.codec type = .ok codec) ↔
      ∀ name, type.Names name → registry.has name = true := by
  have wrapped : ∀ {inner : Except MappingError Codec} {wrap : Codec → Codec},
      (∃ codec, inner.map wrap = .ok codec) ↔ ∃ codec, inner = .ok codec := by
    intro inner wrap
    cases inner <;> simp [Except.map]
  induction type with
  | scalar => exact ⟨fun _ _ named => named.elim, fun _ => ⟨_, rfl⟩⟩
  | list element ih => exact wrapped.trans ih
  | map value ih => exact wrapped.trans ih
  | entity name =>
    by_cases known : registry.has name <;> simp [Registry.codec, FieldType.Names, known]
  | any => exact ⟨fun _ _ named => named.elim, fun _ => ⟨_, rfl⟩⟩

namespace EntityModel

variable {model resolved : EntityModel} {registry : Registry}

/-- A field is given the codec of its type. -/
theorem resolveField_ok_iff {entity : String} {declared field : Field} :
    resolveField registry entity declared = .ok field ↔
      ∃ codec, registry.codec declared.type = .ok codec ∧
        field = { declared with codec := some codec } := by
  unfold resolveField
  rcases registry.codec declared.type with cause | codec
  · cases cause <;> simp
  · simp [eq_comm]

/-- A model is given codecs exactly where there is one for the type of each of its fields. -/
theorem exists_resolve_iff : (∃ resolved, model.resolve registry = .ok resolved) ↔
    ∀ field ∈ model.fields, ∃ codec, registry.codec field.type = .ok codec := by
  have each : ∀ field ∈ model.fields,
      (∃ coded, resolveField registry model.name field = .ok coded) ↔
        ∃ codec, registry.codec field.type = .ok codec := by
    intro field _
    simp only [resolveField_ok_iff]
    exact ⟨fun ⟨_, codec, found, _⟩ => ⟨codec, found⟩, fun ⟨codec, found⟩ => ⟨_, codec, found, rfl⟩⟩
  unfold resolve
  rw [exists_bind_ok_iff, ← exists_mapM_ok_iff.trans (forall₂_congr each)]
  exact exists_congr fun fields => ⟨fun parts => parts.1, fun done => ⟨done, _, rfl⟩⟩

/-- Giving a model codecs settles its fields and nothing else. -/
theorem resolve_ok_settled (done : model.resolve registry = .ok resolved) :
    ∃ fields, List.Forall₂ (fun declared field => ∃ codec, codec.fieldType = declared.type ∧
        field = { declared with codec := some codec }) model.fields fields ∧
      resolved = { model with fields := fields } := by
  obtain ⟨fields, coded, done⟩ := ok_of_bind done
  cases done
  refine ⟨fields, (forall₂_of_mapM coded).imp fun declared field here => ?_, rfl⟩
  obtain ⟨codec, found, same⟩ := resolveField_ok_iff.mp here
  exact ⟨codec, Registry.fieldType_codec found, same⟩

/-- Giving a model codecs does not touch its discriminator. -/
theorem resolve_marks (done : model.resolve registry = .ok resolved) :
    resolved.marks = model.marks := by
  obtain ⟨fields, -, rfl⟩ := resolve_ok_settled done
  rfl

/-- A model without a key takes the common one. -/
theorem withDefaultKey_eq (model : EntityModel) (key : String) : model.withDefaultKey key =
    { model with discriminatorKey := some (model.discriminatorKey.getD key) } := by
  obtain ⟨name, fields, own, discriminator, used, parent, hooks⟩ := model
  cases own <;> rfl

end EntityModel

/-- A value is accepted for an entity unless it stands for another one. -/
theorem Discriminators.exists_register_iff {table : Discriminators} {value entity : String} :
    (∃ after, table.register value entity = .ok after) ↔
      ∀ known, table.lookup value = some known → known = entity := by
  unfold register
  cases found : table.lookup value with
  | none => simp
  | some known => by_cases same : known = entity <;> simp [same]

/-- A registered value stands for its entity, and all others for what they stood for. -/
theorem Discriminators.lookup_register_iff {table after : Discriminators} {value entity : String}
    (entered : table.register value entity = .ok after) (other name : String) :
    after.lookup other = some name ↔
      table.lookup other = some name ∨ (other, name) = (value, entity) := by
  rw [Prod.mk.injEq]
  by_cases same : other = value
  · subst same
    have free := exists_register_iff.mp ⟨after, entered⟩
    rw [lookup_register entered, Option.some.injEq]
    constructor
    · exact fun here => .inr ⟨rfl, here.symm⟩
    · rintro (before | ⟨-, here⟩)
      · exact (free name before).symm
      · exact here.symm
  · simp [lookup_register_other entered same, same]

/-- Settling a model does not touch its discriminator. -/
theorem MapperPlan.Settles.marks {plan : MapperPlan} {given model : EntityModel}
    (settled : plan.Settles given model) : model.marks = given.marks := by
  obtain ⟨fields, -, rfl⟩ := settled
  rfl

namespace Mapper

variable {mapper after : Mapper} {plan : MapperPlan} {models : List EntityModel}
  {aliases : List (String × String)}

/-- How far a plan has been carried out: the models and aliases registered so far. -/
structure Carries (plan : MapperPlan) (models : List EntityModel)
    (aliases : List (String × String)) (mapper : Mapper) : Prop where
  /-- The settings are those of the plan. -/
  options : mapper.options = plan.options
  /-- The registry knows the names of all models of the plan. -/
  registry : mapper.registry = ⟨plan.names⟩
  /-- The models are those registered so far. -/
  settled : List.Forall₂ plan.Settles models mapper.models
  /-- Values stand for what they were given to so far. -/
  meant : ∀ value name, mapper.discriminators.lookup value = some name ↔
    (value, name) ∈ models.flatMap EntityModel.marks ++ aliases

/-- The registered models have the names of the given ones. -/
theorem Carries.names (carries : Carries plan models aliases mapper) :
    mapper.models.map EntityModel.name = models.map EntityModel.name := by
  have same := carries.settled.imp fun given model settled =>
    show model.name = given.name by obtain ⟨fields, -, rfl⟩ := settled; rfl
  exact List.forall₂_eq_eq_eq ▸ List.forall₂_map_left_iff.mpr
    (List.forall₂_map_right_iff.mpr same.flip)

/-- The discriminator of a model is registered, if it uses one, unless its value stands for
another model. -/
theorem exists_withDiscriminator_iff {model : EntityModel} :
    (∃ after, mapper.withDiscriminator model = .ok after) ↔
      ∀ mark ∈ model.marks, ∀ known, mapper.discriminators.lookup mark.1 = some known →
        known = mark.2 := by
  unfold withDiscriminator EntityModel.marks
  split
  · rw [List.forall_mem_singleton, ← Discriminators.exists_register_iff, exists_bind_ok_iff]
    exact exists_congr fun table => ⟨fun parts => parts.1, fun done => ⟨done, _, rfl⟩⟩
  · exact ⟨fun _ => by simp, fun _ => ⟨mapper, rfl⟩⟩

/-- Registering the discriminator of a model adds what it marks to what values stand for. -/
theorem withDiscriminator_lookup {model : EntityModel}
    (done : mapper.withDiscriminator model = .ok after) (value name : String) :
    after.discriminators.lookup value = some name ↔
      mapper.discriminators.lookup value = some name ∨ (value, name) ∈ model.marks := by
  unfold withDiscriminator at done
  unfold EntityModel.marks
  split at done
  · rename_i used
    obtain ⟨table, entered, done⟩ := ok_of_bind done
    cases done
    rw [if_pos used, List.mem_singleton]
    exact Discriminators.lookup_register_iff entered value name
  · rename_i unused
    cases done
    simp [unused]

/-- A model is registered in four steps: its name is new, it passes its check under its key, its
fields are given codecs, and its discriminator is registered. -/
theorem withModel_ok_iff {model : EntityModel} : mapper.withModel model = .ok after ↔
    mapper.model? model.name = none ∧
      (model.withDefaultKey mapper.options.discriminatorKey).Checked ∧
      ∃ resolved, (model.withDefaultKey mapper.options.discriminatorKey).resolve mapper.registry =
          .ok resolved ∧
        ∃ marked, mapper.withDiscriminator resolved = .ok marked ∧
          after = { marked with models := marked.models ++ [resolved] } := by
  rw [← EntityModel.check_eq_ok_iff]
  unfold withModel
  cases taken : mapper.model? model.name with
  | some earlier => exact ⟨fun done => (nomatch done), fun parts => (nomatch parts.1)⟩
  | none =>
    constructor
    · intro done
      obtain ⟨⟨⟩, passed, done⟩ := ok_of_bind done
      obtain ⟨resolved, found, done⟩ := ok_of_bind done
      obtain ⟨marked, registered, done⟩ := ok_of_bind done
      cases done
      exact ⟨rfl, passed, resolved, found, marked, registered, rfl⟩
    · rintro ⟨-, passed, resolved, found, marked, registered, rfl⟩
      change (model.withDefaultKey _).check >>= _ = _
      rw [passed]
      change (model.withDefaultKey _).resolve _ >>= _ = _
      rw [found]
      change mapper.withDiscriminator resolved >>= _ = _
      rw [registered]
      rfl

/-- A model is sound by itself, under the common key where it has none of its own. -/
def Fits (plan : MapperPlan) (model : EntityModel) : Prop :=
  (model.withDefaultKey plan.options.discriminatorKey).Checked ∧
    ∀ field ∈ model.fields, ∀ name, field.type.Names name → name ∈ plan.names

/-- A name is free where no model registered so far has it. -/
theorem Carries.model?_eq_none_iff (carries : Carries plan models aliases mapper)
    (name : String) : mapper.model? name = none ↔ ∀ earlier ∈ models, earlier.name ≠ name := by
  rw [← Option.not_isSome_iff_eq_none, model?_isSome, carries.names]
  simp

/-- The discriminator of a model is registered exactly where its value does not stand for another
model registered so far. -/
theorem Carries.exists_withDiscriminator_iff (carries : Carries plan models [] mapper)
    (model : EntityModel) : (∃ marked, mapper.withDiscriminator model = .ok marked) ↔
      ∀ earlier ∈ models, Agree earlier.marks model.marks := by
  rw [Mapper.exists_withDiscriminator_iff]
  constructor
  · intro apart earlier member one marked other mark same
    have known : (other.1, one.2) ∈ models.flatMap EntityModel.marks :=
      List.mem_flatMap.mpr ⟨earlier, member, same ▸ marked⟩
    exact apart other mark one.2 ((carries.meant _ _).mpr (by simpa using known))
  · intro agree mark marked known stands
    have before := (carries.meant _ _).mp stands
    rw [List.append_nil] at before
    obtain ⟨earlier, member, given⟩ := List.mem_flatMap.mp before
    exact agree earlier member _ given mark marked rfl

/-- The fields of a model, under whatever key, are given codecs exactly where their types name
models of the plan. -/
theorem Carries.exists_resolve_iff (carries : Carries plan models aliases mapper)
    (model : EntityModel) (key : String) :
    (∃ resolved, (model.withDefaultKey key).resolve mapper.registry = .ok resolved) ↔
      ∀ field ∈ model.fields, ∀ name, field.type.Names name → name ∈ plan.names := by
  rw [EntityModel.exists_resolve_iff, EntityModel.withDefaultKey_eq, carries.registry]
  simp [Registry.exists_codec_iff, Registry.has]

/-- A model is registered exactly where it fits and neither its name nor its discriminator is
taken by a model before it. -/
theorem Carries.exists_withModel_iff (carries : Carries plan models [] mapper)
    (model : EntityModel) : (∃ after, mapper.withModel model = .ok after) ↔ Fits plan model ∧
      ∀ earlier ∈ models, earlier.name ≠ model.name ∧ Agree earlier.marks model.marks := by
  have types := carries.exists_resolve_iff model plan.options.discriminatorKey
  have unnamed := carries.model?_eq_none_iff model.name
  have free : ∀ resolved, (model.withDefaultKey plan.options.discriminatorKey).resolve
      mapper.registry = .ok resolved →
      ((∃ marked, mapper.withDiscriminator resolved = .ok marked) ↔
        ∀ earlier ∈ models, Agree earlier.marks model.marks) := by
    intro resolved done
    -- Neither the common key nor the codecs matter for the discriminator.
    have marks : resolved.marks = model.marks := by
      rw [EntityModel.resolve_marks done, EntityModel.withDefaultKey_eq]
      rfl
    rw [carries.exists_withDiscriminator_iff, marks]
  simp only [withModel_ok_iff, carries.options]
  constructor
  · rintro ⟨after, fresh, checked, resolved, coded, registered⟩
    obtain ⟨marked, registered, -⟩ := registered
    have agree := (free resolved coded).mp ⟨marked, registered⟩
    exact ⟨⟨checked, types.mp ⟨resolved, coded⟩⟩, fun earlier member =>
      ⟨unnamed.mp fresh earlier member, agree earlier member⟩⟩
  · rintro ⟨⟨checked, named⟩, before⟩
    obtain ⟨resolved, coded⟩ := types.mpr named
    obtain ⟨marked, registered⟩ := (free resolved coded).mpr fun earlier member =>
      (before earlier member).2
    exact ⟨_, unnamed.mpr fun earlier member => (before earlier member).1, checked, resolved,
      coded, marked, registered, rfl⟩

/-- Registering a discriminator changes nothing but discriminators and their keys. -/
theorem withDiscriminator_ok {model : EntityModel}
    (done : mapper.withDiscriminator model = .ok after) : ∃ table keys,
      after = { mapper with discriminators := table, discriminatorKeys := keys } := by
  unfold withDiscriminator at done
  split at done
  · obtain ⟨table, -, done⟩ := ok_of_bind done
    cases done
    exact ⟨table, _, rfl⟩
  · cases done
    exact ⟨mapper.discriminators, mapper.discriminatorKeys, rfl⟩

/-- A mapper without models carries nothing yet. -/
theorem Carries.bare (plan : MapperPlan) : Carries plan [] [] (Mapper.bare plan) where
  options := rfl
  registry := rfl
  settled := .nil
  meant := by simp [Mapper.bare, Discriminators.lookup, Discriminators.empty]

/-- Registering a model carries one more. -/
theorem Carries.withModel (carries : Carries plan models [] mapper) {model : EntityModel}
    (done : mapper.withModel model = .ok after) : Carries plan (models ++ [model]) [] after := by
  obtain ⟨-, -, resolved, coded, marked, registered, rfl⟩ := withModel_ok_iff.mp done
  have stands := withDiscriminator_lookup registered
  rw [EntityModel.withDefaultKey_eq, carries.options] at coded
  have settled : plan.Settles model resolved := by
    obtain ⟨fields, each, rfl⟩ := EntityModel.resolve_ok_settled coded
    exact ⟨fields, each, rfl⟩
  have marks : resolved.marks = model.marks := settled.marks
  obtain ⟨table, keys, rfl⟩ := withDiscriminator_ok registered
  refine ⟨carries.options, carries.registry, ?_, fun value name => ?_⟩
  · exact List.rel_append carries.settled (.cons settled .nil)
  · refine (stands value name).trans ?_
    rw [carries.meant, marks]
    simp

/-- An alias is registered exactly where its model is and its value is not given to another. -/
theorem Carries.exists_withAlias_iff (carries : Carries plan plan.models aliases mapper)
    (alternative : String × String) : (∃ after, mapper.withAlias alternative = .ok after) ↔
      (alternative.2 ∈ plan.names ∧
        ∀ model ∈ plan.models, Agree model.marks [alternative]) ∧
      ∀ earlier ∈ aliases, earlier.1 = alternative.1 → earlier.2 = alternative.2 := by
  obtain ⟨value, entity⟩ := alternative
  have accepted : (∃ after, mapper.withAlias (value, entity) = .ok after) ↔ entity ∈ plan.names ∧
      ∃ table, mapper.discriminators.register value entity = .ok table := by
    have known : (mapper.model? entity).isSome = true ↔ entity ∈ plan.names := by
      rw [model?_isSome, carries.names]
      rfl
    rw [← known]
    unfold Mapper.withAlias
    dsimp only
    cases mapper.model? entity with
    | none => exact ⟨fun done => (nomatch done.choose_spec), fun parts => (nomatch parts.1)⟩
    | some model =>
      rw [exists_bind_ok_iff]
      exact ⟨fun ⟨table, entered, _⟩ => ⟨rfl, table, entered⟩,
        fun ⟨_, table, entered⟩ => ⟨table, entered, _, rfl⟩⟩
  rw [accepted, Discriminators.exists_register_iff, and_assoc]
  refine and_congr_right fun _ => ?_
  constructor
  · intro free
    have apart : ∀ name, (value, name) ∈ plan.models.flatMap EntityModel.marks ++ aliases →
        name = entity := fun name given => free name ((carries.meant value name).mpr given)
    refine ⟨fun model member one marked other last same => ?_, fun earlier given same => ?_⟩
    · obtain rfl := List.mem_singleton.mp last
      obtain rfl : one.1 = value := same
      exact apart one.2 (List.mem_append_left _ (List.mem_flatMap.mpr ⟨model, member, marked⟩))
    · obtain rfl : earlier.1 = value := same
      exact apart earlier.2 (List.mem_append_right _ given)
  · rintro ⟨models, others⟩ name stands
    rcases List.mem_append.mp ((carries.meant value name).mp stands) with marked | given
    · obtain ⟨model, member, marked⟩ := List.mem_flatMap.mp marked
      exact models model member _ marked _ (List.mem_singleton.mpr rfl) rfl
    · exact others _ given rfl

/-- Registering an alias carries one more. -/
theorem Carries.withAlias (carries : Carries plan models aliases mapper)
    {alternative : String × String} (done : mapper.withAlias alternative = .ok after) :
    Carries plan models (aliases ++ [alternative]) after := by
  obtain ⟨table, -, entered, rfl⟩ := withAlias_ok done
  obtain ⟨given, entity⟩ := alternative
  refine ⟨carries.options, carries.registry, carries.settled, fun value name => ?_⟩
  refine (Discriminators.lookup_register_iff entered value name).trans ?_
  rw [carries.meant]
  simp [or_assoc]

end Mapper

namespace MapperPlan

variable {plan : MapperPlan} {mapper : Mapper}

/-- All models of a plan are registered exactly where each fits and no two of them have one name
or give one value to two names. -/
theorem exists_withModels_iff (plan : MapperPlan) :
    (∃ after, plan.models.foldlM Mapper.withModel (Mapper.bare plan) = .ok after) ↔
      (∀ model ∈ plan.models, Mapper.Fits plan model) ∧ plan.names.Nodup ∧
        ∀ one ∈ plan.models, ∀ other ∈ plan.models, Agree one.marks other.marks := by
  rw [exists_foldlM_ok_iff
    (fun models mapper model (carries : Mapper.Carries plan models [] mapper) =>
      carries.exists_withModel_iff model)
    (fun _ _ _ _ carries done => carries.withModel done) (.bare plan)]
  have named : plan.names.Nodup ↔ plan.models.Pairwise fun one other => one.name ≠ other.name :=
    List.pairwise_map
  have agree : (∀ one ∈ plan.models, ∀ other ∈ plan.models, Agree one.marks other.marks) ↔
      plan.models.Pairwise fun one other => Agree one.marks other.marks := by
    refine ⟨fun all => List.pairwise_of_forall_mem_list all, fun apart => ?_⟩
    exact apart.forall_of_forall_of_flip (fun model _ => EntityModel.agree_marks model)
      (apart.imp fun agree => Agree.symm agree)
  rw [named, agree, ← List.pairwise_and_iff]
  simp

/-- Registering all models carries them out. -/
theorem carries_of_models {registered : Mapper}
    (done : plan.models.foldlM Mapper.withModel (Mapper.bare plan) = .ok registered) :
    Mapper.Carries plan plan.models [] registered :=
  foldlM_tracks (fun seen mapper _ _ (carries : Mapper.Carries plan seen [] mapper) step =>
    carries.withModel step) (.bare plan) done

/-- The aliases of a plan are registered, after its models, exactly where each is given to a
model, no value is given to two of them, and none is that of another model. -/
theorem exists_withAliases_iff {registered : Mapper}
    (carries : Mapper.Carries plan plan.models [] registered) :
    (∃ after, plan.aliases.foldlM Mapper.withAlias registered = .ok after) ↔
      (∀ alternative ∈ plan.aliases, alternative.2 ∈ plan.names ∧
        ∀ model ∈ plan.models, Agree model.marks [alternative]) ∧
      Agree plan.aliases plan.aliases := by
  rw [exists_foldlM_ok_iff
    (fun aliases mapper alternative (carries : Mapper.Carries plan plan.models aliases mapper) =>
      carries.exists_withAlias_iff alternative)
    (fun _ _ _ _ carries done => carries.withAlias done) carries]
  have agree : Agree plan.aliases plan.aliases ↔
      plan.aliases.Pairwise fun one other => one.1 = other.1 → one.2 = other.2 := by
    refine ⟨fun all => List.pairwise_of_forall_mem_list all, fun apart => ?_⟩
    exact apart.forall_of_forall_of_flip (fun _ _ _ => rfl)
      (apart.imp fun agree same => (agree same.symm).symm)
  rw [agree]
  simp

/-- A model fits where it has at most one id, stores its fields apart and none under its key, and
names only models of the plan. -/
theorem fits_iff {model : EntityModel} : Mapper.Fits plan model ↔
    ((model.fields.filter fun field => field.isId).length ≤ 1 ∧
      (model.fields.map Field.documentName).Nodup ∧
      (model.usesDiscriminator = true → plan.keyOf model ∉ model.fields.map Field.documentName)) ∧
    ∀ field ∈ model.fields, ∀ name, field.type.Names name → name ∈ plan.names := by
  refine and_congr_left fun _ => ?_
  rw [EntityModel.withDefaultKey_eq]
  constructor
  · intro checked
    refine ⟨checked.oneId, checked.storedApart, fun used => checked.keyFree _ ?_⟩
    simp [EntityModel.activeKey, used, keyOf]
  · rintro ⟨oneId, storedApart, keyFree⟩
    refine ⟨oneId, storedApart, fun key active => ?_⟩
    obtain ⟨used, rfl⟩ : model.usesDiscriminator = true ∧ plan.keyOf model = key := by
      simpa [EntityModel.activeKey, keyOf] using active
    exact keyFree used

/-- No value is given to two models exactly where models and aliases agree among each other. -/
theorem agree_marks_iff : Agree plan.marks plan.marks ↔
    (∀ one ∈ plan.models, ∀ other ∈ plan.models, Agree one.marks other.marks) ∧
      (∀ alternative ∈ plan.aliases, ∀ model ∈ plan.models, Agree model.marks [alternative]) ∧
      Agree plan.aliases plan.aliases := by
  have ofModel : ∀ {model mark}, model ∈ plan.models → mark ∈ model.marks → mark ∈ plan.marks :=
    fun member marked => List.mem_append_left _ (List.mem_flatMap.mpr ⟨_, member, marked⟩)
  have ofAlias : ∀ {alternative}, alternative ∈ plan.aliases → alternative ∈ plan.marks :=
    fun given => List.mem_append_right _ given
  constructor
  · intro all
    refine ⟨fun one first other second mark here again there => ?_,
      fun alternative given model member mark here again last => ?_,
      fun one first other second => all one (ofAlias first) other (ofAlias second)⟩
    · exact all mark (ofModel first here) again (ofModel second there)
    · obtain rfl := List.mem_singleton.mp last
      exact all mark (ofModel member here) again (ofAlias given)
  · rintro ⟨models, mixed, aliases⟩ one here other there same
    have source : ∀ mark ∈ plan.marks,
        (∃ model ∈ plan.models, mark ∈ model.marks) ∨ mark ∈ plan.aliases := fun mark marked =>
      (List.mem_append.mp marked).imp_left List.mem_flatMap.mp
    rcases source one here with ⟨model, member, marked⟩ | given <;>
      rcases source other there with ⟨second, known, again⟩ | last
    · exact models model member second known one marked other again same
    · exact mixed other last model member one marked other (List.mem_singleton.mpr rfl) same
    · exact (mixed one given second known other again one (List.mem_singleton.mpr rfl)
        same.symm).symm
    · exact aliases one given other last same

/-- Assembling succeeds for exactly the plans without fault. -/
theorem exists_assemble_iff : (∃ mapper, plan.assemble = .ok mapper) ↔ plan.Valid := by
  have walks : (∃ mapper, plan.assemble = .ok mapper) ↔ plan.options.check = .ok () ∧
      ∃ registered, plan.models.foldlM Mapper.withModel (Mapper.bare plan) = .ok registered ∧
        ∃ mapper, plan.aliases.foldlM Mapper.withAlias registered = .ok mapper := by
    unfold assemble
    rw [← exists_bind_ok_iff]
    rcases plan.options.check with fault | ⟨⟨⟩⟩
    · exact ⟨fun done => (nomatch done.choose_spec), fun parts => (nomatch parts.1)⟩
    · exact ⟨fun done => ⟨rfl, done⟩, fun parts => parts.2⟩
  have unambiguous : Agree plan.marks plan.marks ↔ ∀ value first second,
      (value, first) ∈ plan.marks → (value, second) ∈ plan.marks → first = second :=
    ⟨fun agree value first second here there => agree _ here _ there rfl,
      fun apart one here other there same => apart one.1 one.2 other.2 here (same ▸ there)⟩
  rw [walks]
  constructor
  · rintro ⟨options, registered, models, aliases⟩
    obtain ⟨fits, named, agree⟩ := (exists_withModels_iff plan).mp ⟨registered, models⟩
    obtain ⟨aimed, others⟩ := (exists_withAliases_iff (carries_of_models models)).mp aliases
    exact {
      options := options
      namedApart := named
      oneId := fun model member => (fits_iff.mp (fits model member)).1.1
      storedApart := fun model member => (fits_iff.mp (fits model member)).1.2.1
      keyFree := fun model member => (fits_iff.mp (fits model member)).1.2.2
      known := fun model member => (fits_iff.mp (fits model member)).2
      aimed := fun alternative given => (aimed alternative given).1
      unambiguous := unambiguous.mp (agree_marks_iff.mpr
        ⟨agree, fun alternative given => (aimed alternative given).2, others⟩) }
  · intro valid
    obtain ⟨agree, mixed, others⟩ := agree_marks_iff.mp (unambiguous.mpr valid.unambiguous)
    have fits : ∀ model ∈ plan.models, Mapper.Fits plan model := fun model member =>
      fits_iff.mpr ⟨⟨valid.oneId model member, valid.storedApart model member,
        valid.keyFree model member⟩, valid.known model member⟩
    obtain ⟨registered, models⟩ := (exists_withModels_iff plan).mpr ⟨fits, valid.namedApart, agree⟩
    have aliases := (exists_withAliases_iff (carries_of_models models)).mpr
      ⟨fun alternative given => ⟨valid.aimed alternative given, mixed alternative given⟩, others⟩
    exact ⟨valid.options, registered, models, aliases⟩

/-- Validity does not depend on the order of the models. -/
theorem Valid.perm {models : List EntityModel} (same : models.Perm plan.models)
    (valid : plan.Valid) : { plan with models := models }.Valid := by
  have names : ({ plan with models := models } : MapperPlan).names.Perm plan.names :=
    same.map EntityModel.name
  have marks : ∀ mark, mark ∈ ({ plan with models := models } : MapperPlan).marks ↔
      mark ∈ plan.marks := fun _ => ((same.flatMap_right _).append_right _).mem_iff
  exact {
    options := valid.options
    namedApart := names.nodup_iff.mpr valid.namedApart
    oneId := fun model member => valid.oneId model (same.mem_iff.mp member)
    storedApart := fun model member => valid.storedApart model (same.mem_iff.mp member)
    keyFree := fun model member => valid.keyFree model (same.mem_iff.mp member)
    known := fun model member field inside name named =>
      names.mem_iff.mpr (valid.known model (same.mem_iff.mp member) field inside name named)
    aimed := fun alternative given => names.mem_iff.mpr (valid.aimed alternative given)
    unambiguous := fun value first second here there =>
      valid.unambiguous value first second ((marks _).mp here) ((marks _).mp there) }

/-- Assembling carries out the whole plan. -/
theorem carries_of_assemble (built : plan.assemble = .ok mapper) :
    Mapper.Carries plan plan.models plan.aliases mapper := by
  obtain ⟨registered, models, aliases⟩ := assemble_ok built
  exact foldlM_tracks (fun seen mapper _ _
    (carries : Mapper.Carries plan plan.models seen mapper) step => carries.withAlias step)
    (carries_of_models models) aliases

/-- Keys begin with a common one, and none is there twice. -/
def LeadKeys (common : String) (keys : List String) : Prop :=
  keys.head? = some common ∧ keys.Nodup

/-- One more key goes to the end, unless it is there already. -/
theorem LeadKeys.addKey {common : String} {keys : List String} (lead : LeadKeys common keys)
    (key : String) : LeadKeys common (Mapper.addKey keys key) := by
  obtain ⟨first, apart⟩ := lead
  unfold Mapper.addKey
  split
  · exact ⟨first, apart⟩
  · rename_i missing
    have fresh : key ∉ keys := by simpa using missing
    refine ⟨by simp [first], List.nodup_append.mpr ⟨apart, by simp, ?_⟩⟩
    rintro one known other last rfl
    exact fresh (List.mem_singleton.mp last ▸ known)

/-- The keys of an assembled mapper begin with the common one, each once. -/
theorem leadKeys_of_assemble (built : plan.assemble = .ok mapper) :
    LeadKeys plan.options.discriminatorKey mapper.discriminatorKeys := by
  have byModel : ∀ start model after,
      LeadKeys plan.options.discriminatorKey start.discriminatorKeys →
      Mapper.withModel start model = .ok after →
      LeadKeys plan.options.discriminatorKey after.discriminatorKeys := by
    intro start model after lead done
    obtain ⟨resolved, -, -, -, keys⟩ := Mapper.withModel_keys done
    rw [keys]
    split
    · exact lead.addKey _
    · exact lead
  have byAlias : ∀ start alternative after,
      LeadKeys plan.options.discriminatorKey start.discriminatorKeys →
      Mapper.withAlias start alternative = .ok after →
      LeadKeys plan.options.discriminatorKey after.discriminatorKeys := by
    intro start alternative after lead done
    obtain ⟨table, -, -, rfl⟩ := Mapper.withAlias_ok done
    exact lead
  have bare : LeadKeys plan.options.discriminatorKey (Mapper.bare plan).discriminatorKeys :=
    ⟨rfl, by simp [Mapper.bare]⟩
  obtain ⟨registered, models, aliases⟩ := assemble_ok built
  exact foldlM_keeps byAlias (foldlM_keeps byModel bare models) aliases

/-- The mapper of a plan is equipped. -/
theorem equips_of_assemble (built : plan.assemble = .ok mapper) : plan.Equips mapper := by
  have carries := carries_of_assemble built
  have sound := sound_of_assemble built
  have knows := knowsKeys_of_assemble built
  obtain ⟨commonFirst, keysApart⟩ := leadKeys_of_assemble built
  have recognised : ∀ {value model}, mapper.discriminators.lookup value = some model.name →
      mapper.model? model.name = some model →
      ∀ entity, mapper.modelForDiscriminator entity value = .ok model := by
    intro value model stands found entity
    rw [Mapper.modelForDiscriminator, stands, Option.bind_some, found]
  refine ⟨carries.settled, fun model member used => ?_, carries.meant, fun value name stands => ?_,
    commonFirst, keysApart, fun model member used => ?_⟩
  · exact recognised (sound.marked model member used) (sound.model?_of_mem member)
  · intro entity
    obtain ⟨model, found⟩ := Option.isSome_iff_exists.mp (sound.meant value name stands)
    obtain ⟨member, rfl⟩ := Mapper.model?_some found
    exact ⟨model, member, rfl, recognised stands found entity⟩
  · obtain ⟨key, active⟩ := knows.activeKey member used
    refine ⟨key, knows.listed model member key active, ?_⟩
    rwa [EntityModel.activeKey, if_pos used] at active

/-- Assembling succeeds for exactly the plans without fault, so it does not matter in which order
the models are given, and the mapper of a plan is equipped. -/
theorem assemble_iff_valid (plan : MapperPlan) :
    ((∃ mapper, plan.assemble = .ok mapper) ↔ plan.Valid) ∧
    (∀ models, models.Perm plan.models →
      ((∃ mapper, { plan with models := models }.assemble = .ok mapper) ↔
        ∃ mapper, plan.assemble = .ok mapper)) ∧
    ∀ mapper, plan.assemble = .ok mapper → plan.Equips mapper := by
  refine ⟨exists_assemble_iff, fun models same => ?_, fun mapper built => equips_of_assemble built⟩
  rw [exists_assemble_iff, exists_assemble_iff]
  refine ⟨fun valid => ?_, fun valid => valid.perm same⟩
  exact @Valid.perm { plan with models := models } plan.models same.symm valid

/-- Drawings, which list circles, and circles, which are also recognised as round. -/
def drawings : MapperPlan :=
  let circles := FieldType.list (.entity "Circle")
  let drawing := { EntityModel.blank "Drawing" with fields := [.plain "circles" circles] }
  ⟨.standard, [drawing, .blank "Circle"], [("round", "Circle")], []⟩

/-- Drawings and circles are accepted in either order, and what is round is a circle. -/
theorem assemble_iff_valid_drawings : drawings.Valid ∧
    (∃ other, { drawings with models := drawings.models.reverse }.assemble = .ok other) ∧
    ∃ mapper circle, drawings.assemble = .ok mapper ∧ circle.name = "Circle" ∧
      mapper.modelForDiscriminator "Drawing" "round" = .ok circle := by
  obtain ⟨accepted, reordered, equips⟩ := assemble_iff_valid drawings
  obtain ⟨mapper, built⟩ : ∃ mapper, drawings.assemble = .ok mapper := ⟨_, rfl⟩
  have equipped := equips mapper built
  have round : mapper.discriminators.lookup "round" = some "Circle" :=
    (equipped.meant _ _).mpr (by simp [marks, drawings])
  obtain ⟨circle, -, named, recognised⟩ := equipped.yields _ _ round "Drawing"
  exact ⟨accepted.mp ⟨mapper, built⟩, (reordered _ (List.reverse_perm _)).mpr ⟨mapper, built⟩,
    mapper, circle, built, named, recognised⟩

end MapperPlan

end EntityMapping
