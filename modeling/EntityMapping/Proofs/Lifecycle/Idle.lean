import EntityMapping.Lifecycle.Edit
import EntityMapping.Proofs.Decoding.Kind
import EntityMapping.Proofs.Encoding.Writing
/-!
# An interceptor that does nothing

One more interceptor sends every entity at every depth down the path of hooks: its
document is built as a whole, looked at, and read or written again. Where hooks do
not ask the mapper for anything, this makes no difference: an interceptor that does
nothing may be added at any place, and every encoding and every decoding ends as
before, in the same document or entity or the same error, with the same effects.
-/

namespace EntityMapping

/-- The interceptor that does nothing at any point. -/
def Interceptor.idle : Interceptor := fun _ => Hook.idle

/-- A hook that makes no use of the services, and that leaves documents with distinct
names, as every document is. -/
structure Hook.SelfContained (hook : Hook) : Prop where
  /-- The services make no difference. -/
  alone : ∀ services others : Services, hook services = hook others
  /-- Names stay distinct. -/
  distinct : ∀ services entity (document : Document), document.Distinct →
    Ensures (hook services entity document) Document.Distinct

/-- The step of a hook that stores a value makes no use of the mapper. -/
theorem Edit.insert_selfContained (point : HookKind) (key : String) {value : Bson}
    (fresh : value.Distinct) : (Edit.run point (.insert key value)).SelfContained where
  alone _ _ := rfl
  distinct _ _ _ distinct := Ensures.pure (distinct.insert fresh key)

namespace Hook

variable {services : Services} {kind : HookKind} {model : String} {entity : Entity}

/-- An idle hook may stand anywhere in a row of hooks. -/
theorem runAll_idle (before after : List Hook) (document : Document) :
    runAll services kind model entity (before ++ idle :: after) document =
      runAll services kind model entity (before ++ after) document := by
  induction before generalizing document with
  | nil =>
    have passes : tryCatch (idle services entity document) (fun cause =>
        throw (failed kind model cause)) = (pure document : SessionM Document) := rfl
    rw [List.nil_append, List.nil_append, runAll, passes, pure_bind]
  | cons hook rest ih =>
    rw [List.cons_append, List.cons_append, runAll, runAll]
    exact bind_congr fun changed => ih changed

/-- Self-contained hooks do the same with any services. -/
theorem runAll_services {hooks : List Hook} (alone : ∀ hook ∈ hooks, hook.SelfContained)
    (others : Services) (document : Document) :
    runAll services kind model entity hooks document =
      runAll others kind model entity hooks document := by
  induction hooks generalizing document with
  | nil => rw [runAll, runAll]
  | cons hook rest ih =>
    rw [runAll, runAll, (alone hook (by simp)).alone services others]
    exact bind_congr fun changed => ih (fun later member => alone later (by simp [member])) changed

/-- Self-contained hooks keep names distinct. -/
theorem runAll_distinct {hooks : List Hook} (alone : ∀ hook ∈ hooks, hook.SelfContained)
    {document : Document} (distinct : document.Distinct) :
    Ensures (runAll services kind model entity hooks document) Document.Distinct := by
  induction hooks generalizing document with
  | nil => exact Ensures.pure distinct
  | cons hook rest ih =>
    rw [runAll]
    have kept := (alone hook (by simp)).distinct services entity document distinct
    refine (kept.tryCatch fun cause => Ensures.throw).bind fun changed known => ?_
    exact ih (fun later member => alone later (by simp [member])) known

end Hook

/-- One context does what the other does, with every entity sent down the path of hooks. -/
structure Observes (observed plain : MappingContext) : Prop where
  /-- The settings are the same. -/
  options : observed.mapper.options = plain.mapper.options
  /-- The models are the same. -/
  models : observed.mapper.models = plain.mapper.models
  /-- Discriminators stand for the same. -/
  discriminators : observed.mapper.discriminators = plain.mapper.discriminators
  /-- Discriminators are stored under the same keys. -/
  discriminatorKeys : observed.mapper.discriminatorKeys = plain.mapper.discriminatorKeys
  /-- Every entity is observed. -/
  intercepted : observed.mapper.hasInterceptors = true
  /-- The hooks of a model do the same. -/
  hooks : ∀ model ∈ plain.mapper.models,
    Encoding.runHooks observed model = Encoding.runHooks plain model
  /-- The hooks of a model keep names distinct. -/
  distinct : ∀ model ∈ plain.mapper.models, ∀ kind entity (document : Document),
    document.Distinct → Ensures (Encoding.runHooks plain model kind entity document)
      Document.Distinct

namespace Observes

variable {observed plain : MappingContext}

/-- Where no hook runs, documents pass through. -/
theorem runHooks_none {context : MappingContext} {model : EntityModel} {kind : HookKind}
    (none : model.hasHooks kind = false) (unobserved : context.mapper.hasInterceptors = false)
    (entity : Entity) (document : Document) :
    Encoding.runHooks context model kind entity document = pure document := by
  have own : model.hooks kind = [] := by simpa [EntityModel.hasHooks] using none
  have others : context.mapper.interceptors = [] := by
    simpa [Mapper.hasInterceptors] using unobserved
  rw [Encoding.runHooks, Mapper.hooksAt, own, others]
  rfl

/-- The same models are found. -/
theorem model? (same : Observes observed plain) (name : String) :
    observed.mapper.model? name = plain.mapper.model? name := by
  rw [Mapper.model?, Mapper.model?, same.models]

/-- The same models are required. -/
theorem model (same : Observes observed plain) (name : String) :
    observed.mapper.model name = plain.mapper.model name := by
  rw [Mapper.model, Mapper.model, same.model?]

/-- The same model is chosen for a document. -/
theorem modelOfDocument (same : Observes observed plain) (declared : EntityModel)
    (document : Document) : Decoding.modelOfDocument observed.mapper declared document =
      Decoding.modelOfDocument plain.mapper declared document := by
  have found : observed.mapper.model? = plain.mapper.model? := funext same.model?
  unfold Decoding.modelOfDocument Mapper.modelForDiscriminator
  rw [found, same.discriminators]

/-- The same model is recognised in a document. -/
theorem recognise (same : Observes observed plain) (document : Document) :
    Decoding.recognise observed.mapper document = Decoding.recognise plain.mapper document := by
  have found : observed.mapper.model? = plain.mapper.model? := funext same.model?
  unfold Decoding.recognise
  rw [found, same.discriminators, same.discriminatorKeys]

variable {one other : Codec → Bson → SessionM Value}

/-- Entities of a model are read alike from a document with distinct names. -/
theorem properties (each : ∀ codec stored, stored.Distinct → one codec stored = other codec stored)
    (model : EntityModel) {document : Document} (distinct : document.Distinct) :
    Meaning.properties one model document = Meaning.properties other model document := by
  have parts : Keyed.Distinct document ∧ Bson.EntriesDistinct document := by
    simpa [Document.Distinct, Bson.Distinct] using distinct
  exact Meaning.properties_congr
    (fun entry member codec => each codec entry.2 (parts.2.of_mem member)) model

/-- Entities of a model are read alike from a document that hooks see. -/
theorem hooked (same : Observes observed plain)
    (each : ∀ codec stored, stored.Distinct → one codec stored = other codec stored)
    {model : EntityModel} (registered : model ∈ plain.mapper.models) {document : Document}
    (distinct : document.Distinct) :
    Meaning.hooked observed one model document = Meaning.hooked plain other model document := by
  unfold Meaning.hooked
  rw [same.hooks model registered]
  refine (same.distinct model registered .preLoad _ document distinct).bind_congr
    fun changed known => ?_
  rw [properties each model known]

/-- Where no load hook runs, a document is read as it is. -/
theorem hooked_none {context : MappingContext} {model : EntityModel}
    (none : Decoding.needsHooks context model = false) (document : Document) :
    Meaning.hooked context other model document = Meaning.properties other model document := by
  obtain ⟨own, unobserved⟩ : model.hasLoadHooks = false ∧
      context.mapper.hasInterceptors = false := by
    simpa [Decoding.needsHooks] using none
  obtain ⟨before, after⟩ : model.hasHooks .preLoad = false ∧ model.hasHooks .postLoad = false := by
    simpa [EntityModel.hasLoadHooks] using own
  have last : ∀ entity, (do
      discard (Encoding.runHooks context model .postLoad entity document)
      pure entity) = (pure entity : SessionM Entity) := by
    intro entity
    rw [runHooks_none after unobserved]
    rfl
  unfold Meaning.hooked
  rw [runHooks_none before unobserved, pure_bind]
  simp only [last, bind_pure]

/-- Entities are read alike from a document with distinct names. -/
theorem entity (same : Observes observed plain)
    (each : ∀ codec stored, stored.Distinct → one codec stored = other codec stored)
    {declared : EntityModel} (registered : declared ∈ plain.mapper.models) {document : Document}
    (distinct : document.Distinct) :
    Meaning.entity observed one declared false document =
      Meaning.entity plain other declared false document := by
  have always : Decoding.needsHooks observed declared = true := by
    simp [Decoding.needsHooks, same.intercepted]
  have chosen := Meaning.chosen_registered registered document
  unfold Meaning.entity Meaning.withHooks
  simp only [always, if_true, Bool.false_eq_true, if_false, Meaning.document_distinct distinct,
    same.modelOfDocument]
  split
  · exact chosen.bind_congr fun model known => same.hooked each known distinct
  · refine chosen.bind_congr fun model known => ?_
    rw [same.hooked each known distinct]
    split
    · rfl
    · rename_i none
      exact hooked_none (by simpa using none) document

/-- Embedded entities are read alike. -/
theorem embedded (same : Observes observed plain)
    (each : ∀ codec stored, stored.Distinct → one codec stored = other codec stored)
    (name : String) {stored : Bson} (distinct : stored.Distinct) :
    Meaning.embedded observed one name stored = Meaning.embedded plain other name stored := by
  cases stored with
  | document entries =>
    rw [Meaning.embedded, Meaning.embedded, same.model]
    refine (SessionM.ensures_ofExcept _).bind_congr fun declared found => ?_
    have registered := (Mapper.model?_some (Mapper.model_ok.mp found)).1
    rw [same.entity each registered distinct]
  | _ => rfl

/-- Values are read alike for what they are. -/
theorem any (same : Observes observed plain)
    (each : ∀ codec stored, stored.Distinct → one codec stored = other codec stored)
    {stored : Bson} (distinct : stored.Distinct) :
    Meaning.any observed one stored = Meaning.any plain other stored := by
  cases stored with
  | document entries =>
    rw [Meaning.any, Meaning.any, same.recognise]
    cases recognised : Decoding.recognise plain.mapper (Meaning.document entries) with
    | none => rfl
    | some model =>
      dsimp only
      rw [same.entity each (Meaning.recognise_registered recognised) distinct]
  | array items =>
    rw [Meaning.any, Meaning.any, Meaning.items, Meaning.items,
      mapM_congr fun item member => each .any item (distinct.of_mem member)]
  | _ => rfl

/-- Values are read alike, at every depth and by every codec. -/
theorem value (same : Observes observed plain) :
    ∀ (depth : Nat) (codec : Codec) (stored : Bson), stored.Distinct →
      Meaning.value observed depth codec stored = Meaning.value plain depth codec stored
  | 0, _, _, _ => rfl
  | depth + 1, codec, stored, distinct => by
    have each := same.value depth
    cases codec with
    | scalar type => rw [Meaning.value, Meaning.value]
    | list element =>
      rw [Meaning.value, Meaning.value]
      refine Meaning.list_congr fun items stored item member => Meaning.nullable_congr ?_
      subst stored
      exact each element item (distinct.of_mem member)
    | map element =>
      rw [Meaning.value, Meaning.value]
      refine Meaning.map_congr fun entries stored entry member => Meaning.nullable_congr ?_
      subst stored
      exact each element entry.2 (distinct.2.of_mem member)
    | entity name =>
      rw [Meaning.value, Meaning.value]
      exact same.embedded each name distinct
    | any =>
      rw [Meaning.value, Meaning.value]
      exact same.any each distinct

/-- Where no persist hook runs, an entity is stored as it is. -/
theorem ofModel_none {context : MappingContext} {model : EntityModel}
    (none : (model.hasPersistHooks || context.mapper.hasInterceptors) = false) (entity : Entity)
    (forms : Keyed PropertyForm) : (do
      let start ← Encoding.runHooks context model .prePersist entity []
      let document ← Stored.entries context.mapper.options model forms start
      Encoding.runHooks context model .postPersist entity document) =
      Stored.entries context.mapper.options model forms [] := by
  obtain ⟨own, unobserved⟩ : model.hasPersistHooks = false ∧
      context.mapper.hasInterceptors = false := by
    simpa using none
  obtain ⟨before, after⟩ : model.hasHooks .prePersist = false ∧
      model.hasHooks .postPersist = false := by
    simpa [EntityModel.hasPersistHooks] using own
  rw [runHooks_none before unobserved, pure_bind]
  simp only [runHooks_none after unobserved, bind_pure]

/-- Entities of a model are stored alike. -/
theorem ofModel (same : Observes observed plain) {model : EntityModel}
    (registered : model ∈ plain.mapper.models) (entity : Entity) (forms : Keyed PropertyForm) :
    Stored.ofModel observed model entity forms = Stored.ofModel plain model entity forms := by
  have always : (model.hasPersistHooks || observed.mapper.hasInterceptors) = true := by
    simp [same.intercepted]
  unfold Stored.ofModel
  rw [if_pos always, same.hooks model registered, same.options]
  split
  · rfl
  · rename_i none
    exact ofModel_none (by simpa using none) entity forms

/-- The forms of properties are alike where their values are stored alike. -/
theorem forms {properties : List (String × Value)}
    (each : ∀ entry ∈ properties, ∀ codec,
      Stored.value observed entry.2 codec = Stored.value plain entry.2 codec) :
    Stored.forms observed properties = Stored.forms plain properties := by
  rw [Stored.forms_eq, Stored.forms_eq]
  refine List.map_congr_left fun entry member => ?_
  rw [funext (each entry member)]

/-- Entities are stored alike where their properties are. -/
theorem storedEntity (same : Observes observed plain) {properties : List (String × Value)}
    (each : ∀ entry ∈ properties, ∀ codec,
      Stored.value observed entry.2 codec = Stored.value plain entry.2 codec)
    {declared : EntityModel} (registered : declared ∈ plain.mapper.models) (kind : String) :
    Stored.entity observed declared ⟨kind, properties⟩ (Stored.forms observed properties) =
      Stored.entity plain declared ⟨kind, properties⟩ (Stored.forms plain properties) := by
  rw [forms each, Stored.entity, Stored.entity, Encoding.modelFor_eq_ite, Encoding.modelFor_eq_ite,
    same.model]
  refine (SessionM.ensures_ofExcept _).bind_congr fun model chosen => ?_
  refine same.ofModel ?_ _ _
  split at chosen
  · exact Except.ok.inj chosen ▸ registered
  · exact (Mapper.model?_some (Mapper.model_ok.mp chosen)).1

/-- Values are stored alike. -/
theorem storedValue (same : Observes observed plain) (value : Value) :
    ∀ codec, Stored.value observed value codec = Stored.value plain value codec := by
  induction value using Value.parts_induction with
  | single value single =>
    intro codec
    rw [Stored.value_single single, Stored.value_single single]
  | array values each =>
    have items : ∀ codec, Stored.items observed values codec =
        Stored.items plain values codec := by
      intro codec
      rw [Stored.items_eq, Stored.items_eq]
      exact mapM_congr fun item member => by rw [each item member]
    intro codec
    cases codec <;> simp only [Stored.value, items]
  | map values each =>
    have named : ∀ codec, Stored.named observed values codec [] =
        Stored.named plain values codec [] := by
      intro codec
      rw [Stored.named_eq, Stored.named_eq]
      exact foldlM_congr (fun document entry member => by rw [each entry member]) []
    intro codec
    cases codec <;> simp only [Stored.value, named]
  | entity kind properties each =>
    have entity : ∀ name, (do
        let declared ← SessionM.ofExcept (plain.mapper.model name)
        Bson.document <$> Stored.entity observed declared ⟨kind, properties⟩
          (Stored.forms observed properties)) = (do
        let declared ← SessionM.ofExcept (plain.mapper.model name)
        Bson.document <$> Stored.entity plain declared ⟨kind, properties⟩
          (Stored.forms plain properties)) := by
      intro name
      refine (SessionM.ensures_ofExcept _).bind_congr fun declared found => ?_
      have registered := (Mapper.model?_some (Mapper.model_ok.mp found)).1
      rw [same.storedEntity each registered]
    intro codec
    cases codec <;> simp only [Stored.value, same.model, entity]

end Observes

namespace MapperPlan

/-- The plan with one more interceptor, before all but the given count of the others. -/
def observedAt (plan : MapperPlan) (place : Nat) (interceptor : Interceptor) : MapperPlan :=
  { plan with
    interceptors :=
      plan.interceptors.take place ++ interceptor :: plan.interceptors.drop place }

end MapperPlan

namespace Mapper

/-- The mapper with other interceptors. -/
def withInterceptors (mapper : Mapper) (interceptors : List Interceptor) : Mapper :=
  { mapper with interceptors := interceptors }

/-- Registering a discriminator has nothing to do with interceptors. -/
theorem withDiscriminator_withInterceptors (mapper : Mapper) (model : EntityModel)
    (interceptors : List Interceptor) :
    (mapper.withInterceptors interceptors).withDiscriminator model =
      (mapper.withDiscriminator model).map (·.withInterceptors interceptors) := by
  unfold withDiscriminator
  split
  · change (do
      let table ← mapper.discriminators.register model.discriminator model.name
      pure _) = _
    cases mapper.discriminators.register model.discriminator model.name <;> rfl
  · rfl

/-- Registering a model has nothing to do with interceptors. -/
theorem withModel_withInterceptors (mapper : Mapper) (model : EntityModel)
    (interceptors : List Interceptor) :
    (mapper.withInterceptors interceptors).withModel model =
      (mapper.withModel model).map (·.withInterceptors interceptors) := by
  unfold withModel
  have same : ∀ name, (mapper.withInterceptors interceptors).model? name = mapper.model? name :=
    fun _ => rfl
  rw [same]
  split
  · rfl
  · have options : (mapper.withInterceptors interceptors).options = mapper.options := rfl
    have registry : (mapper.withInterceptors interceptors).registry = mapper.registry := rfl
    simp only [options, registry]
    cases (model.withDefaultKey mapper.options.discriminatorKey).check with
    | error cause => rfl
    | ok passed =>
      cases (model.withDefaultKey mapper.options.discriminatorKey).resolve
          mapper.registry with
      | error cause => rfl
      | ok resolved =>
        change (do
          let after ← (mapper.withInterceptors interceptors).withDiscriminator resolved
          pure { after with models := after.models ++ [resolved] }) = Except.map _ (do
            let after ← mapper.withDiscriminator resolved
            pure { after with models := after.models ++ [resolved] })
        rw [withDiscriminator_withInterceptors]
        cases mapper.withDiscriminator resolved <;> rfl

/-- Registering an alias has nothing to do with interceptors. -/
theorem withAlias_withInterceptors (mapper : Mapper) (alternative : String × String)
    (interceptors : List Interceptor) :
    (mapper.withInterceptors interceptors).withAlias alternative =
      (mapper.withAlias alternative).map (·.withInterceptors interceptors) := by
  unfold withAlias
  have same : ∀ name, (mapper.withInterceptors interceptors).model? name = mapper.model? name :=
    fun _ => rfl
  dsimp only
  rw [same]
  cases mapper.model? alternative.2 with
  | none => rfl
  | some model =>
    change (do
      let table ← mapper.discriminators.register alternative.1 alternative.2
      pure { mapper.withInterceptors interceptors with discriminators := table }) = _
    cases mapper.discriminators.register alternative.1 alternative.2 <;> rfl

end Mapper

namespace MapperPlan

variable {plan : MapperPlan} {mapper : Mapper}

/-- Walks whose steps a change passes through are changed at their ends. -/
theorem foldlM_change {α β : Type} {step : β → α → Except MappingError β} {change : β → β}
    (passes : ∀ start item, step (change start) item = (step start item).map change)
    (items : List α) (start : β) :
    items.foldlM step (change start) = (items.foldlM step start).map change := by
  induction items generalizing start with
  | nil => rfl
  | cons item rest ih =>
    rw [List.foldlM_cons, List.foldlM_cons, passes]
    cases step start item with
    | error cause => rfl
    | ok next => exact ih next

/-- A plan with other interceptors assembles to the mapper with other interceptors. -/
theorem assemble_interceptors (built : plan.assemble = .ok mapper)
    (interceptors : List Interceptor) :
    { plan with interceptors := interceptors }.assemble =
      .ok (mapper.withInterceptors interceptors) := by
  unfold assemble at built ⊢
  dsimp only
  cases checked : plan.options.check with
  | error fault => simp [checked] at built
  | ok passed =>
    rw [checked] at built
    obtain ⟨registered, models, aliases⟩ := ok_of_bind built
    have bare : Mapper.bare { plan with interceptors := interceptors } =
        (Mapper.bare plan).withInterceptors interceptors := rfl
    dsimp only
    rw [bare, foldlM_change (fun start model =>
      Mapper.withModel_withInterceptors start model interceptors), models]
    exact (foldlM_change (fun start alternative =>
      Mapper.withAlias_withInterceptors start alternative interceptors) plan.aliases
        registered).trans (by rw [aliases]; rfl)

end MapperPlan

namespace Mapper

/-- A mapper whose hooks and interceptors are self-contained. -/
def SelfContained (mapper : Mapper) : Prop :=
  ∀ model ∈ mapper.models, ∀ kind, ∀ hook ∈ mapper.hooksAt model kind, hook.SelfContained

/-- A mapper of self-contained hooks does the same with one more idle interceptor. -/
theorem SelfContained.observes {mapper : Mapper} (alone : mapper.SelfContained) (place : Nat) :
    Observes (mapper.withInterceptors (mapper.interceptors.take place ++
      Interceptor.idle :: mapper.interceptors.drop place)).context mapper.context where
  options := rfl
  models := rfl
  discriminators := rfl
  discriminatorKeys := rfl
  intercepted := by simp [hasInterceptors, withInterceptors]
  hooks model registered := by
    funext kind entity document
    have hooks : (mapper.withInterceptors (mapper.interceptors.take place ++
        Interceptor.idle :: mapper.interceptors.drop place)).hooksAt model kind =
        (model.hooks kind ++ (mapper.interceptors.take place).map fun one => one kind) ++
          Hook.idle :: (mapper.interceptors.drop place).map fun one => one kind := by
      simp [hooksAt, withInterceptors, Interceptor.idle]
    have others : mapper.hooksAt model kind =
        (model.hooks kind ++ (mapper.interceptors.take place).map fun one => one kind) ++
          (mapper.interceptors.drop place).map fun one => one kind := by
      rw [hooksAt, List.append_assoc, ← List.map_append, List.take_append_drop]
    rw [Encoding.runHooks, Encoding.runHooks, context_mapper, context_mapper, hooks,
      Hook.runAll_idle, ← others]
    exact Hook.runAll_services (alone model registered kind) _ document
  distinct model registered kind entity document distinct :=
    Hook.runAll_distinct (alone model registered kind) distinct

/-- Whatever is encoded ends alike under a mapper that observes. -/
theorem toDocument_observed {observed mapper : Mapper}
    (same : Observes observed.context mapper.context) (entity : Entity) (session : Session) :
    observed.toDocument entity session = mapper.toDocument entity session := by
  have found : observed.model? entity.kind = mapper.model? entity.kind := same.model? entity.kind
  have options : observed.options = mapper.options := same.options
  cases known : mapper.model? entity.kind with
  | none =>
    rw [toDocument_unknown known, toDocument_unknown (found.trans known)]
  | some model =>
    rw [toDocument_eq known, toDocument_eq (found.trans known), options]
    dsimp only
    rw [same.ofModel (model?_some known).1,
      Observes.forms fun entry _ => same.storedValue entry.2]

/-- Whatever is decoded ends alike under a mapper that observes. -/
theorem fromDocument_observed {observed mapper : Mapper}
    (same : Observes observed.context mapper.context) (kind : String) {document : Document}
    (distinct : document.Distinct) (session : Session) :
    observed.fromDocument kind document session = mapper.fromDocument kind document session := by
  have required : observed.model kind = mapper.model kind := same.model kind
  rw [fromDocument_eq, fromDocument_eq, required]
  refine congrArg (perform · session) ?_
  refine (SessionM.ensures_ofExcept _).bind_congr fun declared found => ?_
  exact same.entity (same.value _) (model?_some (model_ok.mp found)).1 distinct

/-- An idle interceptor may be added anywhere: the plan still assembles, and every encoding
and every decoding ends as before, in the same result and the same session. -/
theorem idle_interceptor {plan : MapperPlan} {mapper : Mapper}
    (built : plan.assemble = .ok mapper) (alone : mapper.SelfContained) (place : Nat) :
    ∃ observed, (plan.observedAt place Interceptor.idle).assemble = .ok observed ∧
      (∀ entity session,
        observed.toDocument entity session = mapper.toDocument entity session) ∧
      ∀ kind document session, Document.Distinct document →
        observed.fromDocument kind document session =
          mapper.fromDocument kind document session := by
  have interceptors := (MapperPlan.assemble_settings built).2.1
  have same := alone.observes place
  rw [interceptors] at same
  exact ⟨_, MapperPlan.assemble_interceptors built _, toDocument_observed same,
    fun kind _ session distinct => fromDocument_observed same kind distinct session⟩

/-- A note that is stamped before it is stored. -/
def stampedNotes : MapperPlan :=
  ⟨.standard, [(EntityModel.blank "Note").declare
    (.hook .postPersist (Edit.run .postPersist (.insert "stamped" (.boolean true))))], [], []⟩

/-- A note is stamped and stored alike with an idle interceptor. -/
theorem idle_interceptor_stamped : ∃ mapper observed,
    stampedNotes.assemble = .ok mapper ∧
      (stampedNotes.observedAt 0 Interceptor.idle).assemble = .ok observed ∧
      (∀ entity session,
        observed.toDocument entity session = mapper.toDocument entity session) ∧
      ∀ kind document session, Document.Distinct document →
        observed.fromDocument kind document session =
          mapper.fromDocument kind document session := by
  obtain ⟨mapper, built⟩ : ∃ mapper, stampedNotes.assemble = .ok mapper := ⟨_, rfl⟩
  have alone : mapper.SelfContained := by
    cases built
    intro model registered kind hook member
    obtain rfl := List.mem_singleton.mp registered
    cases kind with
    | postPersist =>
      obtain rfl := List.mem_singleton.mp member
      exact Edit.insert_selfContained .postPersist "stamped" (by simp [Bson.Distinct])
    | _ => cases member
  obtain ⟨observed, kept, encoded, decoded⟩ := idle_interceptor built alone 0
  exact ⟨mapper, observed, built, kept, encoded, decoded⟩

end Mapper

end EntityMapping
