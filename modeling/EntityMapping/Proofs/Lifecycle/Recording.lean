import EntityMapping.Encoding.Basic
import EntityMapping.Proofs.Mapper.Sound
/-!
# What recording hooks leave behind

Hooks that only record add notes and change nothing, so the notes of a session say which
loading steps were carried out, and in which order. A walk through a stored value enters
every document before what is in it and leaves it afterwards. Loading steps that follow
a walk are carried out at points of the walk, in its order and at every point at most
once. `Leaves` reads off a session step which loading steps it carries out when it
succeeds, and when it fails because a stored value is of another type, after which the
value is read once more.
-/

namespace EntityMapping

namespace Bson

mutual

/-- The points at which the documents of a value are entered and left on a walk through it. The
scopes of code are not walked through. -/
def walk : Bson → List (HookKind × Document)
  | .array items => itemWalk items
  | .document entries => (.preLoad, entries) :: (entryWalk entries ++ [(.postLoad, entries)])
  | _ => []

/-- The points of a walk through items. -/
def itemWalk : List Bson → List (HookKind × Document)
  | [] => []
  | item :: rest => walk item ++ itemWalk rest

/-- The points of a walk through the values of entries. -/
def entryWalk : List (String × Bson) → List (HookKind × Document)
  | [] => []
  | (_, value) :: rest => walk value ++ entryWalk rest

end

/-- A walk goes through items one after the other. -/
theorem itemWalk_eq (items : List Bson) : itemWalk items = items.flatMap walk := by
  induction items with
  | nil => rw [itemWalk, List.flatMap_nil]
  | cons item rest ih => rw [itemWalk, ih, List.flatMap_cons]

/-- A walk goes through entries one after the other. -/
theorem entryWalk_eq (entries : List (String × Bson)) :
    entryWalk entries = entries.flatMap fun entry => walk entry.2 := by
  induction entries with
  | nil => rw [entryWalk, List.flatMap_nil]
  | cons entry rest ih => rw [entryWalk, ih, List.flatMap_cons]

/-- A walk through an array goes through its items. -/
theorem walk_array (items : List Bson) : walk (.array items) = items.flatMap walk := by
  rw [walk, itemWalk_eq]

/-- A walk through a document goes through its entries in between. -/
theorem walk_document (entries : List (String × Bson)) :
    walk (.document entries) =
      (.preLoad, entries) :: ((entries.flatMap fun entry => walk entry.2) ++
        [(.postLoad, entries)]) := by
  rw [walk, entryWalk_eq]

/-- A document is entered on a walk through it. -/
theorem enters_document (entries : List (String × Bson)) :
    (.preLoad, entries) ∈ walk (.document entries) := by
  rw [walk_document]
  exact List.mem_cons_self ..

/-- A walk through a document goes through its entries. -/
theorem entries_sublist_walk (entries : List (String × Bson)) :
    (entries.flatMap fun entry => walk entry.2).Sublist (walk (.document entries)) := by
  rw [walk_document]
  exact (List.sublist_append_left ..).cons _

/-- The points of a walk through an entry are points of the walk through its document. -/
theorem mem_walk_document {entries : List (String × Bson)} {entry : String × Bson}
    (member : entry ∈ entries) {point : HookKind × Document} (inside : point ∈ walk entry.2) :
    point ∈ walk (.document entries) :=
  (entries_sublist_walk entries).subset (List.mem_flatMap_of_mem member inside)

end Bson

/-- A hook records each call and does nothing else. -/
def Hook.Records (hook : Hook) (record : Entity → Document → List Note) : Prop :=
  ∀ services entity document session, perform (hook services entity document) session =
    (.ok document, { session with notes := session.notes ++ record entity document })

/-- What the hooks of a model record at a point of what they see. -/
abbrev Recorder := EntityModel → HookKind → Entity → Document → List Note

/-- All hooks and interceptors of a mapper record each call and do nothing else. -/
def Mapper.Records (mapper : Mapper) (recorder : Recorder) : Prop :=
  ∀ model ∈ mapper.models, ∀ kind, ∃ records,
    List.Forall₂ Hook.Records (mapper.hooksAt model kind) records ∧
      ∀ entity document, recorder model kind entity document =
        records.flatMap fun record => record entity document

/-- The hooks of a model are run at a point. -/
structure LoadStep where
  /-- The point. -/
  kind : HookKind
  /-- The model whose hooks are run. -/
  model : EntityModel
  /-- The entity that they see. -/
  entity : Entity
  /-- The document that they see. -/
  document : Document

namespace LoadStep

/-- The point of a step and its document. -/
def point (step : LoadStep) : HookKind × Document := (step.kind, step.document)

/-- The notes that recording hooks leave in a step. -/
def notes (recorder : Recorder) (step : LoadStep) : List Note :=
  recorder step.model step.kind step.entity step.document

end LoadStep

/-- Steps run the hooks of registered models on entities of these models, at points of a walk, in
the order of the walk and at each of its points at most once. -/
structure Mapper.Follows (mapper : Mapper) (points : List (HookKind × Document))
    (steps : List LoadStep) : Prop where
  /-- The models are registered, and the entities are theirs. -/
  genuine : ∀ step ∈ steps, step.model ∈ mapper.models ∧ step.entity.kind = step.model.name
  /-- No point is used out of order or twice. -/
  ordered : (steps.map LoadStep.point).Sublist points

namespace Mapper.Follows

variable {mapper : Mapper} {points others : List (HookKind × Document)}
  {steps more : List LoadStep}

/-- No steps follow any walk. -/
theorem nil (points : List (HookKind × Document)) : mapper.Follows points [] :=
  ⟨by simp, List.nil_sublist points⟩

/-- On a walk without points there are no steps. -/
theorem eq_nil (follows : mapper.Follows [] steps) : steps = [] :=
  List.map_eq_nil_iff.mp (List.sublist_nil.mp follows.ordered)

/-- One step at one point. -/
theorem single {step : LoadStep} (registered : step.model ∈ mapper.models)
    (own : step.entity.kind = step.model.name) : mapper.Follows [step.point] [step] :=
  ⟨List.forall_mem_singleton.mpr ⟨registered, own⟩, List.Sublist.refl _⟩

/-- Steps that follow one walk and then another follow both in order. -/
theorem append (first : mapper.Follows points steps) (second : mapper.Follows others more) :
    mapper.Follows (points ++ others) (steps ++ more) := by
  refine ⟨fun step member => ?_, ?_⟩
  · exact (List.mem_append.mp member).elim (first.genuine step) (second.genuine step)
  · rw [List.map_append]
    exact first.ordered.append second.ordered

/-- Steps follow a walk with more points as well. -/
theorem weaken (follows : mapper.Follows points steps) (more : points.Sublist others) :
    mapper.Follows others steps :=
  ⟨follows.genuine, follows.ordered.trans more⟩

end Mapper.Follows

/-- A session step adds just the notes of loading steps, which are as said where it succeeds and
where it fails because of a type. -/
def Leaves {α : Type} (recorder : Recorder) (action : SessionM α) (done : α → List LoadStep → Prop)
    (refused : List LoadStep → Prop) : Prop :=
  ∀ session outcome after, perform action session = (outcome, after) →
    ∃ steps, after.notes = session.notes ++ steps.flatMap (LoadStep.notes recorder) ∧
      (∀ value, outcome = .ok value → done value steps) ∧
      ∀ cause, outcome = .error cause → cause.isTypeMismatch = true → refused steps

namespace Leaves

variable {α β : Type} {recorder : Recorder} {mapper : Mapper}

/-- A result leaves nothing. -/
theorem pure {value : α} {done : α → List LoadStep → Prop} {refused : List LoadStep → Prop}
    (fact : done value []) : Leaves recorder (Pure.pure value : SessionM α) done refused := by
  intro session outcome after ran
  obtain ⟨rfl, rfl⟩ := Prod.mk.inj ran
  refine ⟨[], by simp, fun result same => ?_, fun cause failed => by cases failed⟩
  exact Except.ok.inj same ▸ fact

/-- A failure leaves nothing. -/
theorem throw {cause : MappingError} {done : α → List LoadStep → Prop}
    {refused : List LoadStep → Prop} (fact : cause.isTypeMismatch = true → refused []) :
    Leaves recorder (MonadExcept.throw cause : SessionM α) done refused := by
  intro session outcome after ran
  obtain ⟨rfl, rfl⟩ := Prod.mk.inj ran
  refine ⟨[], by simp, fun result same => (by cases same), fun other failed mismatch => ?_⟩
  obtain rfl := Except.error.inj failed
  exact fact mismatch

/-- What is said of the steps may be weakened. -/
theorem weaken {action : SessionM α} {done goal : α → List LoadStep → Prop}
    {refused other : List LoadStep → Prop} (leaves : Leaves recorder action done refused)
    (results : ∀ value steps, done value steps → goal value steps)
    (failures : ∀ steps, refused steps → other steps) : Leaves recorder action goal other := by
  intro session outcome after ran
  obtain ⟨steps, noted, succeeded, failed⟩ := leaves session outcome after ran
  exact ⟨steps, noted, fun value same => results value steps (succeeded value same),
    fun cause same mismatch => failures steps (failed cause same mismatch)⟩

/-- A sequence leaves the steps of its first part, then those of its second. -/
theorem bind {action : SessionM α} {next : α → SessionM β} {first : α → List LoadStep → Prop}
    {done : β → List LoadStep → Prop} {early refused : List LoadStep → Prop}
    (leaves : Leaves recorder action first early)
    (later : ∀ value steps, first value steps → Leaves recorder (next value)
      (fun result more => done result (steps ++ more)) fun more => refused (steps ++ more))
    (failures : ∀ steps, early steps → refused steps) :
    Leaves recorder (action >>= next) done refused := by
  intro session outcome after ran
  rw [perform_bind] at ran
  rcases middle : perform action session with ⟨cause | value, between⟩
  · rw [middle] at ran
    obtain ⟨rfl, rfl⟩ := Prod.mk.inj ran
    obtain ⟨steps, noted, -, failed⟩ := leaves session _ _ middle
    refine ⟨steps, noted, fun result same => (by cases same), fun other same mismatch => ?_⟩
    exact failures steps (failed other (by rw [Except.error.inj same]) mismatch)
  · rw [middle] at ran
    obtain ⟨steps, noted, succeeded, -⟩ := leaves session _ _ middle
    obtain ⟨more, added, results, mismatches⟩ :=
      later value steps (succeeded value rfl) between outcome after ran
    refine ⟨steps ++ more, ?_, results, mismatches⟩
    rw [added, noted, List.append_assoc, List.flatMap_append]

/-- A function of the result leaves the same steps. -/
theorem map {action : SessionM α} {change : α → β} {done : β → List LoadStep → Prop}
    {refused : List LoadStep → Prop}
    (leaves : Leaves recorder action (fun value steps => done (change value) steps) refused) :
    Leaves recorder (change <$> action) done refused := by
  rw [map_eq_pure_bind]
  refine leaves.bind (fun value steps fact => Leaves.pure ?_) fun steps fact => fact
  rwa [List.append_nil]

/-- A lifted computation leaves nothing. -/
theorem ofExcept {computation : Except MappingError α}
    (known : ∀ cause, computation = .error cause → cause.isTypeMismatch = false) :
    Leaves recorder (SessionM.ofExcept computation)
      (fun value steps => computation = .ok value ∧ steps = []) fun _ => False := by
  cases computation with
  | ok value => exact Leaves.pure ⟨rfl, rfl⟩
  | error cause => exact Leaves.throw fun mismatch => by simp [known cause rfl] at mismatch

/-- A step whose outcome is looked at leaves the same steps. -/
theorem attempt {action : SessionM α} {done : α → List LoadStep → Prop}
    {refused : List LoadStep → Prop} (leaves : Leaves recorder action done refused) :
    Leaves recorder (SessionM.attempt action)
      (fun outcome steps => (∀ value, outcome = .ok value → done value steps) ∧
        ∀ cause, outcome = .error cause → cause.isTypeMismatch = true → refused steps)
      fun _ => False := by
  intro session outcome after ran
  rw [SessionM.perform_attempt] at ran
  obtain ⟨rfl, rfl⟩ := Prod.mk.inj ran
  obtain ⟨steps, noted, facts⟩ := leaves session _ _ rfl
  refine ⟨steps, noted, fun result same => ?_, fun cause failed => by cases failed⟩
  obtain rfl := Except.ok.inj same
  exact facts

/-- A result has every property that all results of the step have. -/
theorem ensured {action : SessionM α} {done : α → List LoadStep → Prop}
    {refused : List LoadStep → Prop} {holds : α → Prop}
    (leaves : Leaves recorder action done refused) (fact : Ensures action holds) :
    Leaves recorder action (fun value steps => done value steps ∧ holds value) refused := by
  intro session outcome after ran
  obtain ⟨steps, noted, succeeded, failed⟩ := leaves session outcome after ran
  refine ⟨steps, noted, fun value same => ⟨succeeded value same, ?_⟩, failed⟩
  exact fact session value after (same ▸ ran)

/-- Items that each follow their own walk follow these walks one after the other. Where results
without steps are told apart, so are lists of them. What is refused is so at one of the items, with
the steps of the items before it and its own. -/
theorem mapM {step : α → SessionM β} {items : List α}
    {points : α → List (HookKind × Document)} {still : β → Prop}
    {refused : α → List LoadStep → Prop}
    (each : ∀ item ∈ items, Leaves recorder (step item)
      (fun value steps => mapper.Follows (points item) steps ∧ (still value → steps = []))
      (refused item)) :
    Leaves recorder (items.mapM step)
      (fun values steps => mapper.Follows (items.flatMap points) steps ∧
        ((∀ value ∈ values, still value) → steps = []))
      fun steps => ∃ before item after prior own, items = before ++ item :: after ∧
        steps = prior ++ own ∧ mapper.Follows (before.flatMap points) prior ∧
        refused item own := by
  induction items with
  | nil =>
    rw [List.mapM_nil]
    exact Leaves.pure ⟨.nil _, fun _ => rfl⟩
  | cons item rest ih =>
    rw [List.mapM_cons, List.flatMap_cons]
    refine (each item (by simp)).bind (fun value steps here => ?_) fun steps here => ?_
    · refine (ih fun later member => each later (by simp [member])).bind
        (fun values more there => Leaves.pure ⟨?_, fun quiet => ?_⟩) fun more there => ?_
      · rw [List.append_nil]
        exact here.1.append there.1
      · obtain ⟨first, others⟩ := List.forall_mem_cons.mp quiet
        rw [here.2 first, there.2 others, List.append_nil, List.append_nil]
      · obtain ⟨before, other, after, prior, own, rfl, rfl, follows, bad⟩ := there
        refine ⟨item :: before, other, after, steps ++ prior, own, rfl, ?_, ?_, bad⟩
        · rw [List.append_assoc]
        · rw [List.flatMap_cons]
          exact here.1.append follows
    · exact ⟨[], item, rest, [], steps, rfl, rfl, .nil _, here⟩

/-- A walk over items that each follow their own walk follows these walks one after the other. -/
theorem foldlM {step : β → α → SessionM β} {items : List α}
    {points : α → List (HookKind × Document)} {refuses : Prop}
    (each : ∀ found, ∀ item ∈ items, Leaves recorder (step found item)
      (fun _ steps => mapper.Follows (points item) steps)
      fun steps => mapper.Follows (points item) steps ∧ refuses) (start : β) :
    Leaves recorder (items.foldlM step start)
      (fun _ steps => mapper.Follows (items.flatMap points) steps)
      fun steps => mapper.Follows (items.flatMap points) steps ∧ refuses := by
  induction items generalizing start with
  | nil =>
    rw [List.foldlM_nil]
    exact Leaves.pure (.nil _)
  | cons item rest ih =>
    rw [List.foldlM_cons, List.flatMap_cons]
    refine (each start item (by simp)).bind (fun found steps here => ?_) fun steps here => ?_
    · exact (ih (fun found later member => each found later (by simp [member])) found).weaken
        (fun _ more there => here.append there) fun more there => ⟨here.append there.1, there.2⟩
    · exact ⟨here.1.weaken (List.sublist_append_left ..), here.2⟩

/-- Recording hooks leave the document alone, and the notes of one step. -/
theorem runHooks {context : MappingContext} {model : EntityModel}
    (records : context.mapper.Records recorder) (registered : model ∈ context.mapper.models)
    (kind : HookKind) (entity : Entity) (document : Document) :
    Leaves recorder (Encoding.runHooks context model kind entity document)
      (fun result steps => result = document ∧ steps = [⟨kind, model, entity, document⟩])
      fun _ => False := by
  have noted : ∀ {hooks : List Hook} {records : List (Entity → Document → List Note)},
      List.Forall₂ Hook.Records hooks records → ∀ session,
      perform (Hook.runAll context.services kind model.name entity hooks document) session =
        (.ok document, { session with
          notes := session.notes ++ records.flatMap fun record => record entity document }) := by
    intro hooks records each
    induction each with
    | nil => exact fun session => by simp [Hook.runAll]
    | @cons hook record _ _ known _ ih =>
      intro session
      have first : perform (tryCatch (hook context.services entity document)
          fun cause => MonadExcept.throw (Hook.failed kind model.name cause)) session =
          (.ok document, { session with notes := session.notes ++ record entity document }) := by
        rw [perform_tryCatch, known]
      rw [Hook.runAll, perform_bind_ok first, ih, List.flatMap_cons, List.append_assoc]
  intro session outcome after ran
  obtain ⟨list, each, listed⟩ := records model registered kind
  rw [Encoding.runHooks, noted each] at ran
  obtain ⟨rfl, rfl⟩ := Prod.mk.inj ran
  refine ⟨[⟨kind, model, entity, document⟩], by simp [LoadStep.notes, listed],
    fun result same => ?_, fun cause failed => by cases failed⟩
  exact ⟨(Except.ok.inj same).symm, rfl⟩

end Leaves

end EntityMapping
