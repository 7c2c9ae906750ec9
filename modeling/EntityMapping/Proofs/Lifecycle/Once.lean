import EntityMapping.Decidable
import EntityMapping.Lifecycle.Edit
import EntityMapping.Proofs.Decoding.Failures
import EntityMapping.Proofs.Encoding.Fitting
import EntityMapping.Proofs.Lifecycle.Recording
/-!
# Load hooks run once

A value of another type than declared is read a second time for what it is. If the
first reading runs load hooks before it meets the difference, and the second runs them
again, the hooks see one document twice. That takes a ragged array: a list of entities,
or of lists of anything, in which a document stands before an item of another form.
Where there are none, the load hooks of a successful decoding are run along a walk
through the document, which enters and leaves every document once.
-/

namespace EntityMapping

namespace FieldType

/-- What lists of a type hold in the end. -/
def core : FieldType → FieldType
  | list element => element.core
  | type => type

/-- A stored value has the arrays and documents that a type declares: an array where a list is
declared, with nulls and uniform items, and a document where an entity is declared. -/
def Uniform : FieldType → Bson → Prop
  | list element, stored => ∃ items, stored = .array items ∧
      ∀ item ∈ items, item.elementType = .null ∨ element.Uniform item
  | entity _, stored => ∃ entries, stored = .document entries
  | _, _ => True

/-- A document stands in an array before an item that is of another form than the declared list
of items asks for, or in such an item before another one. -/
inductive Ragged : FieldType → Bson → Prop
  /-- An item with a document in it stands before one that is refused. -/
  | late {element : FieldType} {items : List Bson} {earlier item : Bson}
      (order : [earlier, item].Sublist items) (enters : earlier.walk ≠ [])
      (present : item.elementType ≠ .null) (refused : ¬ element.Uniform item) :
      Ragged (list element) (.array items)
  /-- An item is ragged itself. -/
  | inside {element : FieldType} {items : List Bson} {item : Bson} (member : item ∈ items)
      (ragged : Ragged element item) : Ragged (list element) (.array items)

/-- The points at which documents of a value may be entered and left when it is read as a type;
scalars have none. -/
def points (type : FieldType) (stored : Bson) : List (HookKind × Document) :=
  match type.core with
  | scalar _ => []
  | _ => stored.walk

/-- In the end a type holds scalars, maps or entities. -/
theorem core_cases (type : FieldType) : (∃ kind, type.core = .scalar kind) ∨
    type.core.isMap = true ∨ type.core.storesEntities = true := by
  induction type with
  | scalar kind => exact .inl ⟨kind, rfl⟩
  | list element ih => exact ih
  | map => exact .inr (.inl rfl)
  | entity | any => exact .inr (.inr rfl)

/-- A value is entered and left on a walk through it. -/
theorem points_sublist (type : FieldType) (stored : Bson) :
    (type.points stored).Sublist stored.walk := by
  unfold points
  split
  · exact List.nil_sublist _
  · exact List.Sublist.refl _

/-- The points of an array are those of its items. -/
theorem points_list (element : FieldType) (items : List Bson) :
    (list element).points (.array items) = items.flatMap element.points := by
  have same : (list element).core = element.core := rfl
  unfold points
  rw [same]
  split
  · simp
  · exact Bson.walk_array items

end FieldType

/-- A value is an entity, or a list with such a value in it. -/
inductive Value.ListsEntity : Value → Prop
  /-- An entity. -/
  | entity (kind : String) (properties : List (String × Value)) :
      ListsEntity (.entity kind properties)
  /-- A list. -/
  | array {items : List Value} {item : Value} (member : item ∈ items)
      (inside : ListsEntity item) : ListsEntity (.array items)

/-- Every item of a converted list is converted. -/
theorem convertItems_each {change : Value → Except MappingError Value}
    {items results : List Value} (converted : Conversion.convertItems change items = .ok results) :
    ∀ item ∈ items, ∃ result, change item = .ok result := by
  induction items generalizing results with
  | nil => simp
  | cons item rest ih =>
    rw [Conversion.convertItems] at converted
    obtain ⟨first, changed, later⟩ := ok_of_bind converted
    obtain ⟨others, done, -⟩ := ok_of_bind later
    exact List.forall_mem_cons.mpr ⟨⟨first, changed⟩, ih done⟩

/-- Only values without entities in their lists are converted to lists of maps. -/
theorem convert_lists_no_entity {type : FieldType} {raw value : Value}
    (maps : type.core.isMap = true) (converted : convert type raw = .ok value) :
    ¬ raw.ListsEntity := by
  induction type generalizing raw value with
  | scalar | entity | any => cases maps
  | list element ih =>
    intro lists
    cases lists with
    | entity kind properties =>
      obtain ⟨item, single, -⟩ := ok_of_map (show (convert element (.entity kind properties)).map
        (fun item => Value.array [item]) = .ok value from converted)
      exact ih maps single (.entity kind properties)
    | @array items item member inside =>
      obtain ⟨results, done, -⟩ := ok_of_map (show (Conversion.convertItems (convert element)
        items).map Value.array = .ok value from converted)
      obtain ⟨result, changed⟩ := convertItems_each done item member
      exact ih maps changed inside
  | map element =>
    intro lists
    cases lists <;> cases converted

/-- For no field of a model stands a ragged array in a document, if the lists of the field hold
entities or anything. -/
def EntityModel.NoneRagged (model : EntityModel) (document : Document) : Prop :=
  ∀ key field stored, model.fieldStoredAs key = some field → (key, stored) ∈ document →
    field.type.core.storesEntities = true → ¬ field.type.Ragged stored

namespace Mapper

/-- No array in a document is ragged by a model that the document may be read as. -/
def NoneRagged (mapper : Mapper) (document : Document) : Prop :=
  ∀ declared ∈ mapper.models, ∀ model,
    Decoding.modelOfDocument mapper declared document = .ok model → model.NoneRagged document

/-- Reading a value as a type follows a walk through the value; what is read for what it is and
lists no entity, without a step. If entities are declared, a value that is refused as one of another
type is not uniform, and is refused without a step unless it is ragged. -/
def Loads (mapper : Mapper) (recorder : Recorder) (type : FieldType) (stored : Bson)
    (action : SessionM Value) : Prop :=
  Leaves recorder action
    (fun value steps => mapper.Follows (type.points stored) steps ∧
      (type = .any → ¬ value.ListsEntity → steps = []))
    fun steps => mapper.Follows (type.points stored) steps ∧
      (type.core.storesEntities = true → ¬ type.Uniform stored ∧
        (steps = [] ∨ type.Ragged stored))

section

variable {mapper : Mapper} {recorder : Recorder} {child : Codec → Bson → SessionM Value}

/-- The value of a field is read along a walk through it. A second reading adds steps only where
the first had none. -/
theorem fieldValue_leaves {model : EntityModel} {field : Field} {codec : Codec} {stored : Bson}
    (resolved : field.resolved = .ok codec)
    (first : mapper.Loads recorder field.type stored (child codec stored))
    (again : mapper.Loads recorder .any stored (child .any stored))
    (smooth : field.type.core.storesEntities = true → ¬ field.type.Ragged stored) :
    Leaves recorder (Meaning.fieldValue child model field stored)
      (fun _ steps => mapper.Follows stored.walk steps) fun _ => False := by
  unfold Meaning.fieldValue
  split
  · exact Leaves.pure (.nil _)
  rw [resolved, SessionM.ofExcept, pure_bind]
  refine (Leaves.attempt first).bind (fun outcome steps known => ?_) fun _ never => never
  cases outcome with
  | ok value =>
    refine Leaves.pure ?_
    rw [List.append_nil]
    exact (known.1 value rfl).1.weaken (field.type.points_sublist stored)
  | error cause =>
    dsimp only
    split
    · rename_i mismatch
      obtain ⟨follows, entities⟩ := known.2 cause rfl mismatch
      refine again.bind (fun raw more reread => ?_) fun more refused => (refused.2 rfl).1 trivial
      cases converted : convert field.type raw with
      | error source => exact Leaves.throw fun mismatch => by cases mismatch
      | ok value =>
        refine Leaves.pure ?_
        rw [List.append_nil]
        rcases field.type.core_cases with ⟨kind, scalar⟩ | maps | declared
        · have none : field.type.points stored = [] := by rw [FieldType.points, scalar]
          rw [none] at follows
          rw [follows.eq_nil, List.nil_append]
          exact reread.1
        · rw [reread.2 rfl (convert_lists_no_entity maps converted), List.append_nil]
          exact follows.weaken (field.type.points_sublist stored)
        · rw [(entities declared).2.resolve_right (smooth declared), List.nil_append]
          exact reread.1
    · exact Leaves.throw fun mismatch => by cases mismatch

/-- The entity of a model is read along walks through the values of its document. -/
theorem properties_leaves (sound : mapper.Sound) {model : EntityModel}
    (registered : model ∈ mapper.models) {document : Document}
    (smooth : model.NoneRagged document)
    (each : ∀ entry ∈ document, ∀ codec,
      mapper.Loads recorder codec.fieldType entry.2 (child codec entry.2)) :
    Leaves recorder (Meaning.properties child model document)
      (fun entity steps => mapper.Follows (document.flatMap fun entry => entry.2.walk) steps ∧
        entity.kind = model.name) fun _ => False := by
  have walked : Leaves recorder (Meaning.properties child model document)
      (fun _ steps => mapper.Follows (document.flatMap fun entry => entry.2.walk) steps)
      fun steps => mapper.Follows (document.flatMap fun entry => entry.2.walk) steps ∧ False := by
    refine Leaves.foldlM (fun entity entry member => ?_) _
    unfold Meaning.property
    split
    · exact Leaves.pure (.nil _)
    · split
      · rename_i field found
        have declared := (EntityModel.fieldStoredAs_some found).1
        obtain ⟨codec, assigned, coded⟩ := sound.resolved model registered field declared
        have first := each entry member codec
        rw [Registry.fieldType_codec coded] at first
        exact Leaves.map (Leaves.weaken (fieldValue_leaves (by rw [Field.resolved, assigned]) first
          (each entry member .any) (smooth entry.1 field entry.2 found member))
          (fun _ _ follows => follows) fun _ never => never.elim)
      · exact Leaves.pure (.nil _)
  exact (walked.ensured (Meaning.properties_kind model document)).weaken
    (fun _ _ known => known) fun _ never => never.2

end

section

variable {context : MappingContext} {recorder : Recorder} {child : Codec → Bson → SessionM Value}
  {model : EntityModel} {document : Document}

/-- A document that hooks see is entered, read and left. -/
theorem hooked_leaves (sound : context.mapper.Sound) (records : context.mapper.Records recorder)
    (registered : model ∈ context.mapper.models) (smooth : model.NoneRagged document)
    (each : ∀ entry ∈ document, ∀ codec,
      context.mapper.Loads recorder codec.fieldType entry.2 (child codec entry.2)) :
    Leaves recorder (Meaning.hooked context child model document)
      (fun _ steps => context.mapper.Follows (Bson.walk (.document document)) steps)
      fun _ => False := by
  refine (Leaves.runHooks records registered .preLoad (Entity.empty model.name) document).bind
    (fun changed entering known => ?_) fun _ never => never
  obtain ⟨rfl, rfl⟩ := known
  refine (properties_leaves sound registered smooth each).bind
    (fun entity inside known => ?_) fun _ never => never
  let leave : LoadStep := ⟨.postLoad, model, entity, changed⟩
  have leaves : Leaves recorder
      (discard (Encoding.runHooks context model .postLoad entity changed))
      (fun _ steps => steps = [leave]) fun _ => False :=
    Leaves.map ((Leaves.runHooks records registered .postLoad entity changed).weaken
      (fun _ _ known => known.2) fun _ never => never)
  refine leaves.bind (fun _ leaving same => Leaves.pure ?_) fun _ never => never
  rw [same, Bson.walk_document, List.append_nil]
  have entered := @Follows.single context.mapper
    ⟨.preLoad, model, Entity.empty model.name, changed⟩ registered rfl
  exact entered.append (known.1.append (@Follows.single context.mapper leave registered known.2))

/-- A document is entered, read and left as an entity of the model that is chosen for it. -/
theorem entity_leaves (sound : context.mapper.Sound) (records : context.mapper.Records recorder)
    (registered : model ∈ context.mapper.models) (distinct : document.Distinct)
    (smooth : context.mapper.NoneRagged document)
    (each : ∀ entry ∈ document, ∀ codec,
      context.mapper.Loads recorder codec.fieldType entry.2 (child codec entry.2)) :
    Leaves recorder (Meaning.entity context child model false document)
      (fun _ steps => context.mapper.Follows (Bson.walk (.document document)) steps)
      fun _ => False := by
  have chosen : Leaves recorder
      (SessionM.ofExcept (Decoding.modelOfDocument context.mapper model document))
      (fun other steps => (Decoding.modelOfDocument context.mapper model document = .ok other ∧
        steps = []) ∧ other ∈ context.mapper.models) fun _ => False := by
    refine (Leaves.ofExcept fun cause failed => ?_).ensured
      (Meaning.chosen_registered registered document)
    rcases modelOfDocument_error failed with ⟨value, rfl⟩ | ⟨key, source, -, rfl⟩ <;> rfl
  have hooked : ∀ other ∈ context.mapper.models,
      Decoding.modelOfDocument context.mapper model document = .ok other →
      Leaves recorder (Meaning.hooked context child other document)
        (fun _ steps => context.mapper.Follows (Bson.walk (.document document)) steps)
        fun _ => False :=
    fun other known found =>
      hooked_leaves sound records known (smooth model registered other found) each
  rw [Meaning.entity, Meaning.withHooks, Meaning.document_distinct distinct]
  simp only [Bool.false_eq_true, if_false]
  split
  · refine chosen.bind (fun other steps known => ?_) fun _ never => never
    obtain ⟨⟨found, rfl⟩, known⟩ := known
    exact hooked other known found
  · refine chosen.bind (fun other steps known => ?_) fun _ never => never
    obtain ⟨⟨found, rfl⟩, known⟩ := known
    split
    · rw [Meaning.withHooks, if_pos rfl, Meaning.document_distinct distinct]
      exact hooked other known found
    · refine (properties_leaves sound known (smooth model registered other found) each).weaken
        (fun _ steps read => ?_) fun _ never => never
      exact read.1.weaken (Bson.entries_sublist_walk document)

/-- A scalar is read without a step. -/
theorem scalar_loads (kind : ScalarType) (stored : Bson) :
    context.mapper.Loads recorder (.scalar kind) stored (Meaning.scalar kind stored) := by
  unfold Meaning.scalar
  split
  · exact Leaves.pure ⟨.nil _, fun same => by cases same⟩
  · exact Leaves.throw fun _ => ⟨.nil _, fun entities => by cases entities⟩

/-- A null is read without a step, and is not refused. -/
theorem nullable_leaves {type : FieldType} {stored : Bson} {read : Bson → SessionM Value}
    (loads : context.mapper.Loads recorder type stored (read stored)) :
    Leaves recorder (Meaning.nullable read stored)
      (fun _ steps => context.mapper.Follows (type.points stored) steps)
      fun steps => stored.elementType ≠ .null ∧
        context.mapper.Follows (type.points stored) steps ∧
        (type.core.storesEntities = true → ¬ type.Uniform stored ∧
          (steps = [] ∨ type.Ragged stored)) := by
  unfold Meaning.nullable
  split
  · exact Leaves.pure (.nil _)
  · rename_i present
    exact Leaves.weaken loads (fun _ _ known => known.1) fun _ known => ⟨present, known⟩

/-- A list is read along walks through its items. It is refused where it is no array, or where an
item is neither null nor read. -/
theorem list_loads {element : FieldType} {stored : Bson} {read : Bson → SessionM Value}
    (each : ∀ items, stored = .array items → ∀ item ∈ items,
      context.mapper.Loads recorder element item (read item)) :
    context.mapper.Loads recorder (.list element) stored
      (Meaning.list (Meaning.nullable read) stored) := by
  cases stored with
  | array items =>
    have walked := @Leaves.mapM _ _ recorder context.mapper (Meaning.nullable read) items
      element.points (fun _ => False) _ fun item member =>
        (nullable_leaves (each items rfl item member)).weaken
          (fun _ _ follows => ⟨follows, False.elim⟩) fun _ known => known
    refine Leaves.map (walked.weaken (fun _ _ known => ?_) fun steps known => ?_)
    · rw [FieldType.points_list]
      exact ⟨known.1, fun same => by cases same⟩
    · obtain ⟨before, item, after, prior, own, rfl, rfl, first, present, last, entities⟩ := known
      refine ⟨?_, fun declared => ⟨fun uniform => ?_, ?_⟩⟩
      · rw [FieldType.points_list, List.flatMap_append, List.flatMap_cons]
        exact first.append (last.weaken (List.sublist_append_left ..))
      · obtain ⟨others, same, fits⟩ := uniform
        cases same
        exact (fits item (by simp)).elim present (entities declared).1
      · obtain ⟨refused, none | ragged⟩ := entities declared
        · by_cases quiet : before.flatMap element.points = []
          · rw [quiet] at first
            exact .inl (by rw [first.eq_nil, none, List.append_nil])
          · -- Some item before the refused one has a document.
            obtain ⟨earlier, stands, visited⟩ :
                ∃ earlier ∈ before, element.points earlier ≠ [] := by
              simpa [List.flatMap_eq_nil_iff] using quiet
            have order : [earlier, item].Sublist (before ++ item :: after) :=
              (List.singleton_sublist.mpr stands).append (List.singleton_sublist.mpr (by simp))
            refine .inr (.late order (fun bare => visited ?_) present refused)
            exact List.sublist_nil.mp (bare ▸ element.points_sublist earlier)
        · exact .inr (.inside (by simp) ragged)
  | _ =>
    refine Leaves.throw fun _ => ⟨.nil _, fun _ => ⟨fun uniform => ?_, .inl rfl⟩⟩
    obtain ⟨items, same, -⟩ := uniform
    cases same

/-- A map is read along walks through its entries. -/
theorem map_loads {element : FieldType} {stored : Bson} {read : Bson → SessionM Value}
    (each : ∀ entries, stored = .document entries → ∀ entry ∈ entries,
      context.mapper.Loads recorder element entry.2 (read entry.2)) :
    context.mapper.Loads recorder (.map element) stored
      (Meaning.map (Meaning.nullable read) stored) := by
  cases stored with
  | document entries =>
    have inside := Bson.entries_sublist_walk entries
    have walked := @Leaves.foldlM _ _ recorder context.mapper
      (Meaning.entry (Meaning.nullable read)) entries (fun entry => entry.2.walk) True
      fun found entry member => by
        have one := (nullable_leaves (each entries rfl entry member)).weaken
          (fun _ _ follows => follows.weaken (element.points_sublist entry.2))
          fun _ known => known.2.1.weaken (element.points_sublist entry.2)
        refine one.bind (fun value steps follows => Leaves.pure ?_) fun _ follows =>
          ⟨follows, trivial⟩
        rwa [List.append_nil]
    exact Leaves.map ((walked []).weaken
      (fun _ _ follows => ⟨follows.weaken inside, fun same => by cases same⟩)
      fun _ known => ⟨known.1.weaken inside, fun entities => by cases entities⟩)
  | _ => exact Leaves.throw fun _ => ⟨.nil _, fun entities => by cases entities⟩

/-- An embedded entity is read along a walk through its document. What is no document is refused
without a step. -/
theorem embedded_loads {name : String} {stored : Bson}
    (whole : ∀ model ∈ context.mapper.models, ∀ entries, stored = .document entries →
      Leaves recorder (Meaning.entity context child model false entries)
        (fun _ steps => context.mapper.Follows (Bson.walk (.document entries)) steps)
        fun _ => False) :
    context.mapper.Loads recorder (.entity name) stored
      (Meaning.embedded context child name stored) := by
  cases stored with
  | document entries =>
    have unknown : ∀ cause, context.mapper.model name = .error cause →
        cause.isTypeMismatch = false := by
      intro cause failed
      obtain rfl := model_error failed
      rfl
    refine (Leaves.ofExcept unknown).bind (fun declared steps known => ?_)
      fun _ never => never.elim
    obtain ⟨found, rfl⟩ := known
    have registered := (model?_some (model_ok.mp found)).1
    refine Leaves.map ((whole declared registered entries rfl).weaken
      (fun _ _ follows => ⟨follows, fun same => ?_⟩) fun _ never => never.elim)
    cases same
  | _ =>
    refine Leaves.throw fun _ => ⟨.nil _, fun _ => ⟨fun uniform => ?_, .inl rfl⟩⟩
    obtain ⟨entries, same⟩ := uniform
    cases same

/-- A value that is read for what it is follows a walk through it: a document that is recognised is
entered, and nothing else but the items of arrays is. -/
theorem any_loads {stored : Bson}
    (each : ∀ items, stored = .array items → ∀ item ∈ items,
      context.mapper.Loads recorder .any item (child .any item))
    (whole : ∀ model ∈ context.mapper.models, ∀ entries, stored = .document entries →
      Leaves recorder (Meaning.entity context child model false entries)
        (fun _ steps => context.mapper.Follows (Bson.walk (.document entries)) steps)
        fun _ => False) :
    context.mapper.Loads recorder .any stored (Meaning.any context child stored) := by
  cases stored with
  | document entries =>
    rw [Meaning.any]
    split
    · rename_i model recognised
      have registered := Meaning.recognise_registered recognised
      refine Leaves.map ((whole model registered entries rfl).weaken
        (fun entity _ follows => ⟨follows, fun _ none => ?_⟩) fun _ never => never.elim)
      exact absurd (.entity entity.kind entity.properties) none
    · exact Leaves.pure ⟨.nil _, fun _ _ => rfl⟩
  | array items =>
    have walked := @Leaves.mapM _ _ recorder context.mapper (child .any) items Bson.walk
      (fun value => ¬ value.ListsEntity) (fun _ _ => False) fun item member =>
        Leaves.weaken (each items rfl item member) (fun _ _ known => ⟨known.1, known.2 rfl⟩)
          fun _ known => (known.2 rfl).1 trivial
    refine Leaves.map (walked.weaken (fun _ _ known => ⟨?_, fun _ none => ?_⟩) fun _ known => ?_)
    · exact known.1.weaken (Bson.walk_array items ▸ List.Sublist.refl _)
    · exact known.2 fun value member inside => none (.array member inside)
    · obtain ⟨_, _, _, _, _, -, -, -, never⟩ := known
      exact never.elim
  | _ => exact Leaves.pure ⟨.nil _, fun _ _ => rfl⟩

/-- Every value is read along a walk through it, if no document in it stores a ragged array. -/
theorem value_loads (sound : context.mapper.Sound) (records : context.mapper.Records recorder) :
    ∀ (depth : Nat) (codec : Codec) {stored : Bson}, stored.Distinct →
      (∀ nested, (.preLoad, nested) ∈ stored.walk → context.mapper.NoneRagged nested) →
      context.mapper.Loads recorder codec.fieldType stored
        (Meaning.value context depth codec stored)
  | 0, _, _, _, _ => Leaves.throw fun mismatch => by cases mismatch
  | depth + 1, codec, stored, distinct, smooth => by
    -- What is stored inside is read with one level less.
    have item : ∀ items, stored = .array items → ∀ item ∈ items, ∀ codec,
        context.mapper.Loads recorder codec.fieldType item
          (Meaning.value context depth codec item) := by
      rintro items rfl item member codec
      refine value_loads sound records depth codec (distinct.of_mem member)
        fun nested inside => smooth nested ?_
      rw [Bson.walk_array]
      exact List.mem_flatMap_of_mem member inside
    have entry : ∀ entries, stored = .document entries → ∀ entry ∈ entries, ∀ codec,
        context.mapper.Loads recorder codec.fieldType entry.2
          (Meaning.value context depth codec entry.2) := by
      rintro entries rfl entry member codec
      exact value_loads sound records depth codec (distinct.2.of_mem member)
        fun nested inside => smooth nested (Bson.mem_walk_document member inside)
    have whole : ∀ model ∈ context.mapper.models, ∀ entries, stored = .document entries →
        Leaves recorder (Meaning.entity context (Meaning.value context depth) model false entries)
          (fun _ steps => context.mapper.Follows (Bson.walk (.document entries)) steps)
          fun _ => False := by
      rintro model registered entries rfl
      exact entity_leaves sound records registered distinct
        (smooth entries (Bson.enters_document entries)) (entry entries rfl)
    cases codec with
    | scalar kind => exact scalar_loads kind stored
    | list element =>
      exact list_loads fun items same part member => item items same part member element
    | map element =>
      exact map_loads fun entries same part member => entry entries same part member element
    | entity name => exact embedded_loads whole
    | any => exact any_loads (fun items same part member => item items same part member .any) whole

end

/-- A call carries out loading steps along a walk through a document, and no others: it enters and
leaves no document in it twice, at whatever place, and adds just what is recorded then. -/
def LoadsOnce (mapper : Mapper) (recorder : Recorder) (document : Document)
    (before after : Session) : Prop :=
  ∃ steps, mapper.Follows (Bson.walk (.document document)) steps ∧
    after.notes = before.notes ++ steps.flatMap (LoadStep.notes recorder)

/-- A successful decoding enters and leaves each document once at most, if no document stores a
ragged array where lists of entities, or of lists of anything, are declared. -/
theorem fromDocument_loads_once {mapper : Mapper} {plan : MapperPlan} {recorder : Recorder}
    {kind : String} {document : Document} {session after : Session} {entity : Entity}
    (built : plan.assemble = .ok mapper) (records : mapper.Records recorder)
    (distinct : document.Distinct)
    (smooth : ∀ nested, (.preLoad, nested) ∈ Bson.walk (.document document) →
      mapper.NoneRagged nested)
    (decoded : mapper.fromDocument kind document session = (.ok entity, after)) :
    mapper.LoadsOnce recorder document session after := by
  have sound := MapperPlan.sound_of_assemble built
  have values := @value_loads mapper.context recorder sound records
    (Decoding.depthFor (Reader.ofDocument document))
  have inside : ∀ entry ∈ document, ∀ codec, mapper.Loads recorder codec.fieldType entry.2
      (Meaning.value mapper.context (Decoding.depthFor (Reader.ofDocument document)) codec
        entry.2) :=
    fun entry member codec => values codec (distinct.2.of_mem member)
      fun nested known => smooth nested (Bson.mem_walk_document member known)
  rw [fromDocument_eq, perform_bind, SessionM.perform_ofExcept] at decoded
  cases located : mapper.model kind with
  | error cause =>
    rw [located] at decoded
    cases decoded
  | ok declared =>
    rw [located] at decoded
    have registered := (model?_some (model_ok.mp located)).1
    have own := smooth document (Bson.enters_document document)
    obtain ⟨steps, noted, done, -⟩ := @entity_leaves mapper.context recorder _ declared document
      sound records registered distinct own inside session _ _ decoded
    exact ⟨steps, done entity rfl, noted⟩

/-- Zoos of herds of animals, whose loading is observed. -/
def observedZoos : MapperPlan :=
  ⟨.standard, [{ EntityModel.blank "Animal" with fields := [.plain "name" (.scalar .string)] },
    { EntityModel.blank "Zoo" with fields := [.plain "herds" (.list (.list (.entity "Animal")))] }],
    [], [.ofEdits fun
      | .preLoad | .postLoad => [.note "seen"]
      | _ => []]⟩

/-- The notes of the observer. -/
def sightings : Recorder := fun _ kind entity document =>
  match kind with
  | .preLoad | .postLoad => [⟨"seen", kind, entity, document⟩]
  | _ => []

/-- The document of an animal. -/
def animal (name : String) : Document := [("_t", .string "Animal"), ("name", .string name)]

/-- The document of a zoo in which an animal stands before a herd. -/
def zoo : Document :=
  [("herds", .array [.document (animal "tom"), .array [.document (animal "rex")]])]

/-- The document of a zoo in which a herd stands before an animal. -/
def raggedZoo : Document :=
  [("herds", .array [.array [.document (animal "rex")], .document (animal "tom")])]

/-- The observer does nothing but record. -/
theorem observedZoos_records {mapper : Mapper} (built : observedZoos.assemble = .ok mapper) :
    mapper.Records sightings := by
  cases built
  intro model registered kind
  have hooks : model.hooks kind = [] := by
    rcases List.mem_cons.mp registered with rfl | other
    · rfl
    · obtain rfl := List.mem_singleton.mp other
      rfl
  refine ⟨[sightings model kind], ?_, fun entity document => by simp⟩
  rw [hooksAt, hooks]
  refine List.Forall₂.cons (fun services entity document session => ?_) .nil
  cases kind <;> simp [sightings] <;> rfl

/-- What the observer was told of a reading: the points and the documents, in order. -/
def told (after : Session) : List (HookKind × Document) :=
  after.notes.map fun note => (note.kind, note.document)

/-- A reading in an observed zoo that is found to succeed, with what the observer was told. -/
theorem observedZoos_read {mapper : Mapper} (built : observedZoos.assemble = .ok mapper)
    {document : Document} {points : List (HookKind × Document)}
    (found : (do
      let mapper ← observedZoos.assemble
      let result := mapper.fromDocument "Zoo" document (.start fun _ => ⟨0⟩)
      pure (result.1.toBool, told result.2)) = .ok (true, points)) :
    ∃ entity after, mapper.fromDocument "Zoo" document (.start fun _ => ⟨0⟩) = (.ok entity, after) ∧
      told after = points := by
  rw [built] at found
  obtain ⟨succeeds, noted⟩ := Prod.mk.inj (Except.ok.inj found)
  generalize mapper.fromDocument "Zoo" document (.start fun _ => ⟨0⟩) = result at succeeds noted ⊢
  obtain ⟨outcome, after⟩ := result
  cases outcome with
  | error => cases succeeds
  | ok entity => exact ⟨entity, after, rfl, noted⟩

/-- The points at which the observer sees the zoo and its animals. -/
theorem zoo_read {mapper : Mapper} (built : observedZoos.assemble = .ok mapper) :
    ∃ entity after, mapper.fromDocument "Zoo" zoo (.start fun _ => ⟨0⟩) = (.ok entity, after) ∧
      told after = [(.preLoad, zoo), (.preLoad, animal "tom"), (.postLoad, animal "tom"),
        (.preLoad, animal "rex"), (.postLoad, animal "rex"), (.postLoad, zoo)] := by
  exact observedZoos_read built (by decide +kernel)

/-- No key stands twice in the zoo. -/
theorem zoo_distinct : zoo.Distinct := by
  simp [zoo, animal, Document.Distinct, Bson.Distinct, Bson.EntriesDistinct, Bson.ItemsDistinct,
    Keyed.Distinct, Keyed.keys]

/-- There are only texts in the document of an animal. -/
theorem noneRagged_animal (mapper : Mapper) (name : String) :
    mapper.NoneRagged (animal name) := by
  intro declared _ model _ key field stored _ member _ ragged
  have text : ∃ content, stored = .string content := by
    rcases List.mem_cons.mp member with same | other
    · exact ⟨_, (Prod.mk.inj same).2⟩
    · exact ⟨_, (Prod.mk.inj (List.mem_singleton.mp other)).2⟩
  obtain ⟨content, rfl⟩ := text
  generalize field.type = type at ragged
  cases ragged

/-- A list of herds in which an animal stands first is not ragged: nothing is read before it is
seen to be no herd. -/
theorem not_ragged_herds (first second : Document) :
    ¬ FieldType.Ragged (.list (.list (.entity "Animal")))
      (.array [.document first, .array [.document second]]) := by
  intro ragged
  cases ragged with
  | late order _ _ refused =>
    cases order.eq_of_length rfl
    exact refused ⟨_, rfl, by simp [FieldType.Uniform]⟩
  | inside inner ragged =>
    rcases List.mem_pair.mp inner with rfl | rfl
    · cases ragged
    · cases ragged with
      | late order => exact absurd order.length_le (by simp)
      | inside _ ragged => cases ragged

/-- A zoo stores no ragged array where its herds are declared. -/
theorem noneRagged_zoo {mapper : Mapper} (built : observedZoos.assemble = .ok mapper) :
    mapper.NoneRagged zoo := by
  intro declared registered model chosen key field stored found member _ ragged
  obtain ⟨rfl, rfl⟩ := Prod.mk.inj (List.mem_singleton.mp member)
  cases built
  rcases List.mem_pair.mp registered with rfl | rfl
  · cases chosen
    cases found
  · cases chosen
    cases found
    exact not_ragged_herds _ _ ragged

/-- The zoo and its animals store no ragged arrays. -/
theorem zoo_smooth {mapper : Mapper} (built : observedZoos.assemble = .ok mapper)
    {nested : Document} (entered : (.preLoad, nested) ∈ Bson.walk (.document zoo)) :
    mapper.NoneRagged nested := by
  have visited : nested = zoo ∨ nested = animal "tom" ∨ nested = animal "rex" := by
    simpa [Bson.walk, Bson.entryWalk, Bson.itemWalk, zoo, animal, or_assoc] using entered
  rcases visited with rfl | rfl | rfl
  · exact noneRagged_zoo built
  · exact mapper.noneRagged_animal "tom"
  · exact mapper.noneRagged_animal "rex"

/-- A zoo with an animal before a herd is no list of herds. That is seen before any animal is
entered, so the zoo and each of its animals are entered and left once. -/
theorem fromDocument_loads_once_zoo : ∃ mapper entity after,
    observedZoos.assemble = .ok mapper ∧ mapper.Records sightings ∧ zoo.Distinct ∧
      (∀ nested, (.preLoad, nested) ∈ Bson.walk (.document zoo) → mapper.NoneRagged nested) ∧
      mapper.fromDocument "Zoo" zoo (.start fun _ => ⟨0⟩) = (.ok entity, after) ∧
      (after.notes.map fun note => (note.kind, note.document)) =
        [(.preLoad, zoo), (.preLoad, animal "tom"), (.postLoad, animal "tom"),
          (.preLoad, animal "rex"), (.postLoad, animal "rex"), (.postLoad, zoo)] ∧
      mapper.LoadsOnce sightings zoo (.start fun _ => ⟨0⟩) after := by
  obtain ⟨mapper, built⟩ : ∃ mapper, observedZoos.assemble = .ok mapper := ⟨_, rfl⟩
  obtain ⟨entity, after, read, noted⟩ := zoo_read built
  have records := observedZoos_records built
  have smooth := fun nested => @zoo_smooth mapper built nested
  exact ⟨mapper, entity, after, built, records, zoo_distinct, smooth, read, noted,
    fromDocument_loads_once built records zoo_distinct smooth read⟩

/-- The points at which the observer sees the ragged zoo and its animals. -/
theorem raggedZoo_read {mapper : Mapper} (built : observedZoos.assemble = .ok mapper) :
    ∃ entity after,
      mapper.fromDocument "Zoo" raggedZoo (.start fun _ => ⟨0⟩) = (.ok entity, after) ∧
      told after = [(.preLoad, raggedZoo), (.preLoad, animal "rex"), (.postLoad, animal "rex"),
        (.preLoad, animal "rex"), (.postLoad, animal "rex"), (.preLoad, animal "tom"),
        (.postLoad, animal "tom"), (.postLoad, raggedZoo)] := by
  exact observedZoos_read built (by decide +kernel)

/-- Steps of loading leave one note each at most with the observer. -/
theorem sightings_length (steps : List LoadStep) :
    (steps.flatMap (LoadStep.notes sightings)).length ≤ steps.length := by
  have one : ∀ step : LoadStep, (step.notes sightings).length ≤ 1 := by
    intro step
    unfold LoadStep.notes sightings
    split <;> simp
  induction steps with
  | nil => simp
  | cons step rest ih =>
    have first := one step
    rw [List.flatMap_cons, List.length_append, List.length_cons]
    omega

/-- A zoo with an animal behind its herd is no list of herds, and is read once more for what it is:
the animal in the herd is entered and left twice. -/
theorem fromDocument_loads_twice : ∃ mapper entity after,
    observedZoos.assemble = .ok mapper ∧ mapper.Records sightings ∧ raggedZoo.Distinct ∧
      mapper.fromDocument "Zoo" raggedZoo (.start fun _ => ⟨0⟩) = (.ok entity, after) ∧
      (after.notes.map fun note => (note.kind, note.document)) =
        [(.preLoad, raggedZoo), (.preLoad, animal "rex"), (.postLoad, animal "rex"),
          (.preLoad, animal "rex"), (.postLoad, animal "rex"), (.preLoad, animal "tom"),
          (.postLoad, animal "tom"), (.postLoad, raggedZoo)] ∧
      ¬ mapper.LoadsOnce sightings raggedZoo (.start fun _ => ⟨0⟩) after := by
  obtain ⟨mapper, built⟩ : ∃ mapper, observedZoos.assemble = .ok mapper := ⟨_, rfl⟩
  obtain ⟨entity, after, read, noted⟩ := raggedZoo_read built
  have distinct : raggedZoo.Distinct := by
    simp [raggedZoo, animal, Document.Distinct, Bson.Distinct, Bson.EntriesDistinct,
      Bson.ItemsDistinct, Keyed.Distinct, Keyed.keys]
  refine ⟨mapper, entity, after, built, observedZoos_records built, distinct, read, noted, ?_⟩
  rintro ⟨steps, follows, added⟩
  -- Eight notes were left, but a walk has six points, with one note at each.
  have few : steps.length ≤ 6 := by
    have bound := follows.ordered.length_le
    simpa [Bson.walk, Bson.entryWalk, Bson.itemWalk, raggedZoo, animal] using bound
  have bound := sightings_length steps
  have many := congrArg List.length noted
  rw [told, added, List.length_map] at many
  change (steps.flatMap (LoadStep.notes sightings)).length = 8 at many
  omega

end Mapper

end EntityMapping
