import Mathlib.Algebra.Ring.Parity
import EntityMapping.Proofs.Mapper.Ancestry
import EntityMapping.Query.FieldEnd
/-!
# Calls on a field end

A field end takes calls one after another: negation is turned over, or a predicate
is added. What the query gains is one criterion for each accepted predicate, in
order and on one path, negated where negation was turned over an odd number of times
before it. A refused predicate changes nothing. A predicate without a complaint of its
own never returns where resolving its path does not end, which takes a mapper with a
model that is its own ancestor.
-/

namespace EntityMapping

/-- A call on a field end. -/
inductive FieldCall where
  /-- Turn negation over. -/
  | negate
  /-- Add a predicate. -/
  | predicate (added : Predicate)

namespace FieldCall

/-- How often calls turn negation over. -/
def turns : List FieldCall → Nat
  | [] => 0
  | .negate :: rest => turns rest + 1
  | .predicate _ :: rest => turns rest

/-- The predicates among calls, each with the number of turns before it, of which `before` were
made earlier. -/
def predicates (before : Nat) : List FieldCall → List (Predicate × Nat)
  | [] => []
  | .negate :: rest => predicates (before + 1) rest
  | .predicate added :: rest => (added, before) :: predicates before rest

end FieldCall

namespace Predicate

/-- The operator of a predicate. -/
def operator : Predicate → FilterOperator
  | value operator _ => operator
  | values operator _ => operator
  | place operator _ _ => operator

/-- The value that a predicate gives its operator. -/
def content : Predicate → Bson
  | value _ content => content
  | values _ content => .array content
  | place _ content _ => content

/-- The further entries of a predicate. -/
def options : Predicate → Option Document
  | place _ _ options => options
  | _ => none

/-- Whether a predicate is about places. -/
def isPlace : Predicate → Bool
  | place _ _ _ => true
  | _ => false

/-- Whether a predicate is about a set, and the set is empty. -/
def isEmptySet : Predicate → Bool
  | values _ content => content.isEmpty
  | _ => false

end Predicate

namespace Query

/-- The document path of a property path, whether the path is known or not, if resolving it
ends. -/
def translation (query : Query) (path : String) : Option String :=
  match query.binding with
  | none => some path
  | some binding => (binding.mapper.resolvePath? binding.entity path).map ResolvedPath.text

/-- Append criteria in order. -/
def extend (query : Query) (criteria : List Criterion) : Query :=
  { query with parts := query.parts ++ criteria.map .criterion }

/-- A query that gains no criteria stays as it is. -/
@[simp]
theorem extend_nil (query : Query) : query.extend [] = query := by
  simp [extend]

/-- The first criterion is appended before the others. -/
theorem extend_cons (query : Query) (first : Criterion) (rest : List Criterion) :
    query.extend (first :: rest) = (query.add first).extend rest := by
  simp [extend, add]

/-- Criteria are appended in two goes as in one. -/
theorem extend_append (query : Query) (first second : List Criterion) :
    (query.extend first).extend second = query.extend (first ++ second) := by
  simp [extend]

/-- The translation of a path depends on the entity of the query only. -/
theorem translation_congr {query other : Query} (same : other.binding = query.binding)
    (path : String) : other.translation path = query.translation path := by
  rw [translation, translation, same]

/-- Every path is translated where the walks to parents end. -/
theorem translation_isSome {query : Query}
    (ends : ∀ binding, query.binding = some binding → ∀ name, binding.mapper.WalksEnd name)
    (path : String) : (query.translation path).isSome = true := by
  unfold translation
  split
  · rfl
  · rename_i binding bound
    rw [Option.isSome_map]
    exact Mapper.resolveFrom_isSome (ends binding bound) _ none _

/-- A path has at most one translation. -/
theorem exists_translation (query : Query) (path : String) :
    ∃ only, ∀ translated, query.translation path = some translated → translated = only := by
  cases query.translation path with
  | none => exact ⟨path, nofun⟩
  | some only => exact ⟨only, fun _ same => (Option.some.inj same).symm⟩

/-- The query is about an entity that does not know a path, and the path is to be checked. -/
structure Rejects (query : Query) (path : String) (validating : Bool) (binding : Binding) :
    Prop where
  /-- The query is about an entity. -/
  bound : query.binding = some binding
  /-- The path is to be checked. -/
  checking : validating = true
  /-- Resolving the path ends, and a part of it is unknown. -/
  unresolved : ∃ resolved, binding.mapper.resolvePath? binding.entity path = some resolved ∧
    resolved.isResolved = false

/-- A path that is rejected is translated all the same. -/
theorem Rejects.translated {query : Query} {path : String} {validating : Bool} {binding : Binding}
    (rejects : query.Rejects path validating binding) :
    ∃ document, query.translation path = some document := by
  obtain ⟨resolved, answered, -⟩ := rejects.unresolved
  refine ⟨resolved.text, ?_⟩
  simp only [translation, rejects.bound, answered, Option.map_some]

/-- Resolving a path does not end, or the query rejects the path, or translates it. -/
theorem resolve_cases (query : Query) (path : String) (validating : Bool) :
    (query.translation path = none ∧ query.resolve path validating = none) ∨
    (∃ binding, query.Rejects path validating binding ∧
      query.resolve path validating = some (.error (.invalidField binding.entity path))) ∨
    ∃ known, query.translation path = some known ∧
      (∀ binding, ¬ query.Rejects path validating binding) ∧
      query.resolve path validating = some (.ok known) := by
  unfold resolve translation
  cases bound : query.binding with
  | none => exact .inr (.inr ⟨path, rfl, fun _ rejects => by simp [rejects.bound] at bound, rfl⟩)
  | some binding =>
    cases answered : binding.mapper.resolvePath? binding.entity path with
    | none => exact .inl (by simp [answered])
    | some resolved =>
      by_cases refused : (validating && !resolved.isResolved) = true
      · have unknown := refused
        rw [Bool.and_eq_true, Bool.not_eq_true'] at unknown
        exact .inr (.inl ⟨binding, ⟨bound, unknown.1, resolved, answered, unknown.2⟩,
          by simp [answered, unknown]⟩)
      · refine .inr (.inr ⟨resolved.text, by simp [answered], fun other rejects => refused ?_,
          by simpa [answered] using refused⟩)
        obtain rfl : other = binding := Option.some.inj (rejects.bound.symm.trans bound)
        obtain ⟨found, again, unresolved⟩ := rejects.unresolved
        obtain rfl : found = resolved := Option.some.inj (again.symm.trans answered)
        simp [rejects.checking, unresolved]

end Query

namespace FieldEnd

variable {subject : FieldEnd} {query : Query} {added : Predicate} {cause : QueryError}

/-- A field end after negation was turned over a number of times. -/
def turned (field : String) (validating : Bool) (turns : Nat) : FieldEnd :=
  ⟨field, decide (Odd turns), validating⟩

/-- Turning negation over makes the number of turns odd or even. -/
theorem negate_turned (field : String) (validating : Bool) (turns : Nat) :
    (turned field validating turns).negate = turned field validating (turns + 1) := by
  simp only [turned, negate, Nat.odd_add_one, decide_not]

/-- A field end refuses a predicate. The complaints are in the order in which they are raised: a
negated predicate about places, an empty set, and a path that is unknown. -/
inductive Refuses (subject : FieldEnd) (query : Query) : Predicate → QueryError → Prop
  /-- A predicate about places is not negated. -/
  | negatedPlace (operator : FilterOperator) (content : Bson) (options : Option Document) :
    subject.negated = true →
      Refuses subject query (.place operator content options) (.negatedGeo subject.field)
  /-- A set holds a value. -/
  | emptySet (operator : FilterOperator) :
    Refuses subject query (.values operator []) (.emptyValues operator.key)
  /-- A path that is checked is known. -/
  | unknownPath (added : Predicate) (binding : Binding) :
    ¬ (added.isPlace = true ∧ subject.negated = true) → added.isEmptySet = false →
      query.Rejects subject.field subject.validating binding →
      Refuses subject query added (.invalidField binding.entity subject.field)

/-- Adding a predicate does not end: it is refused for no complaint of its own, and resolving the
path does not end. -/
structure Endless (subject : FieldEnd) (query : Query) (added : Predicate) : Prop where
  /-- It is no negated predicate about places. -/
  settled : ¬ (added.isPlace = true ∧ subject.negated = true)
  /-- It is about no empty set. -/
  filled : added.isEmptySet = false
  /-- Resolving the path does not end. -/
  untranslated : query.translation subject.field = none

/-- The criterion that a field end makes of a predicate on a translated path. -/
def criterion (subject : FieldEnd) (path : String) (added : Predicate) : Criterion :=
  ⟨path, added.operator, added.content, added.options, subject.negated, subject.validating⟩

/-- A field end refuses a predicate for one cause. -/
theorem Refuses.unique {other : QueryError} (refuses : subject.Refuses query added cause)
    (again : subject.Refuses query added other) : other = cause := by
  cases refuses with
  | negatedPlace operator content options negated =>
    cases again with
    | negatedPlace => rfl
    | unknownPath _ _ settled => exact absurd ⟨rfl, negated⟩ settled
  | emptySet operator =>
    cases again with
    | emptySet => rfl
    | unknownPath _ _ _ filled => cases filled
  | unknownPath _ binding settled filled rejects =>
    cases again with
    | negatedPlace _ _ _ negated => exact absurd ⟨rfl, negated⟩ settled
    | emptySet => cases filled
    | unknownPath _ other _ _ known =>
      rw [Option.some.inj (known.bound.symm.trans rejects.bound)]

/-- The refusals of a field end depend on the entity of the query only. -/
theorem Refuses.congr {other : Query} (refuses : subject.Refuses query added cause)
    (same : other.binding = query.binding) : subject.Refuses other added cause := by
  cases refuses with
  | negatedPlace operator content options negated =>
    exact .negatedPlace operator content options negated
  | emptySet operator => exact .emptySet operator
  | unknownPath _ binding settled filled rejects =>
    exact .unknownPath _ binding settled filled
      ⟨same.trans rejects.bound, rejects.checking, rejects.unresolved⟩

/-- A predicate is refused alike by queries about one entity. -/
theorem refuses_congr {other : Query} (same : other.binding = query.binding) :
    subject.Refuses other added cause ↔ subject.Refuses query added cause :=
  ⟨fun refuses => refuses.congr same.symm, fun refuses => refuses.congr same⟩

/-- Whether adding a predicate ends depends on the entity of the query only. -/
theorem Endless.congr {other : Query} (endless : subject.Endless query added)
    (same : other.binding = query.binding) : subject.Endless other added :=
  ⟨endless.settled, endless.filled,
    (Query.translation_congr same subject.field).trans endless.untranslated⟩

/-- Adding a predicate ends alike for queries about one entity. -/
theorem endless_congr {other : Query} (same : other.binding = query.binding) :
    subject.Endless other added ↔ subject.Endless query added :=
  ⟨fun endless => endless.congr same.symm, fun endless => endless.congr same⟩

/-- A query that gains a criterion refuses the same predicates. -/
theorem refuses_add (criterion : Criterion) :
    subject.Refuses (query.add criterion) added cause ↔ subject.Refuses query added cause :=
  refuses_congr rfl

/-- A query that gains criteria refuses the same predicates. -/
theorem refuses_extend (criteria : List Criterion) :
    subject.Refuses (query.extend criteria) added cause ↔ subject.Refuses query added cause :=
  refuses_congr rfl

/-- A query that gains a criterion goes on for ever with the same predicates. -/
theorem endless_add (criterion : Criterion) :
    subject.Endless (query.add criterion) added ↔ subject.Endless query added :=
  endless_congr rfl

/-- A query that gains criteria goes on for ever with the same predicates. -/
theorem endless_extend (criteria : List Criterion) :
    subject.Endless (query.extend criteria) added ↔ subject.Endless query added :=
  endless_congr rfl

/-- No predicate on a translated path is endless. -/
theorem not_endless_of_translation {path : String}
    (known : query.translation subject.field = some path) : ¬ subject.Endless query added := by
  intro endless
  rw [endless.untranslated] at known
  cases known

/-- No predicate is endless where the walks to parents end. -/
theorem not_endless
    (ends : ∀ binding, query.binding = some binding → ∀ name, binding.mapper.WalksEnd name) :
    ¬ subject.Endless query added := by
  obtain ⟨path, known⟩ := Option.isSome_iff_exists.mp (Query.translation_isSome ends subject.field)
  exact not_endless_of_translation known

/-- What is refused is not endless. -/
theorem Refuses.not_endless (refuses : subject.Refuses query added cause) :
    ¬ subject.Endless query added := by
  intro endless
  cases refuses with
  | negatedPlace _ _ _ negated => exact endless.settled ⟨rfl, negated⟩
  | emptySet => cases endless.filled
  | unknownPath _ binding _ _ rejects =>
    obtain ⟨path, known⟩ := rejects.translated
    exact not_endless_of_translation known endless

end FieldEnd

namespace OpenField

variable {field : OpenField} {added : Predicate}

/-- A sequence makes its second request of what the first leaves, unless the first is refused or
does not end. -/
theorem request_bind {α β : Type} (field : OpenField) (first : FieldM α) (next : α → FieldM β) :
    field.request (first >>= next) = (field.request first).bind fun outcome =>
      match outcome with
      | (.ok value, after) => after.request (next value)
      | (.error cause, after) => some (.error cause, after) := by
  change (first field).bind _ = (first field).bind _
  congr 1
  funext outcome
  obtain ⟨_ | _, _⟩ := outcome <;> rfl

/-- Turning negation over changes the field end only, and always ends. -/
theorem request_negate (field : OpenField) :
    field.request negate = some (.ok (), { field with subject := field.subject.negate }) := rfl

/-- A criterion is appended where its path is translated. Nothing changes where the path is
refused. -/
theorem request_append (field : OpenField) (operator : FilterOperator) (content : Bson)
    (options : Option Document) :
    field.request (append operator content options) =
      (field.query.resolve field.subject.field field.subject.validating).map fun outcome =>
        match outcome with
        | .ok path => (.ok (), { field with query := field.query.add ⟨path, operator, content,
            options, field.subject.negated, field.subject.validating⟩ })
        | .error cause => (.error cause, field) := by
  have translated : field.request translate =
      (field.query.resolve field.subject.field field.subject.validating).map fun outcome =>
        (outcome, field) := rfl
  rw [append, request_bind, translated]
  cases field.query.resolve field.subject.field field.subject.validating with
  | none => rfl
  | some outcome => cases outcome <;> rfl

/-- Where a predicate has no complaint of its own, resolving the path decides. -/
theorem append_cases
    (settled : ¬ (added.isPlace = true ∧ field.subject.negated = true))
    (filled : added.isEmptySet = false)
    (appends : field.request (add added) =
      field.request (append added.operator added.content added.options)) :
    (field.subject.Endless field.query added ∧ field.request (add added) = none) ∨
    (∃ cause, field.subject.Refuses field.query added cause ∧
      field.request (add added) = some (.error cause, field)) ∨
    ∃ path, field.query.translation field.subject.field = some path ∧
      (∀ cause, ¬ field.subject.Refuses field.query added cause) ∧
      field.request (add added) = some (.ok (),
        { field with query := field.query.add (field.subject.criterion path added) }) := by
  rw [appends, request_append]
  rcases field.query.resolve_cases field.subject.field field.subject.validating with
    ⟨untranslated, unanswered⟩ | ⟨binding, rejects, refused⟩ | ⟨path, known, accepts, translated⟩
  · exact .inl ⟨⟨settled, filled, untranslated⟩, by rw [unanswered, Option.map_none]⟩
  · exact .inr (.inl ⟨_, .unknownPath added binding settled filled rejects,
      by rw [refused, Option.map_some]⟩)
  · refine .inr (.inr ⟨path, known, fun cause refuses => ?_,
      by rw [translated, Option.map_some, FieldEnd.criterion]⟩)
    cases refuses with
    | negatedPlace _ _ _ negated => exact settled ⟨rfl, negated⟩
    | emptySet => cases filled
    | unknownPath _ binding _ _ rejects => exact accepts binding rejects

/-- Adding a predicate does not end, or it is refused for a cause and changes nothing, or its
criterion is appended. -/
theorem add_cases (field : OpenField) (added : Predicate) :
    (field.subject.Endless field.query added ∧ field.request (add added) = none) ∨
    (∃ cause, field.subject.Refuses field.query added cause ∧
      field.request (add added) = some (.error cause, field)) ∨
    ∃ path, field.query.translation field.subject.field = some path ∧
      (∀ cause, ¬ field.subject.Refuses field.query added cause) ∧
      field.request (add added) = some (.ok (),
        { field with query := field.query.add (field.subject.criterion path added) }) := by
  cases added with
  | value operator content => exact append_cases (by simp [Predicate.isPlace]) rfl rfl
  | values operator content =>
    cases content with
    | nil => exact .inr (.inl ⟨_, .emptySet operator, rfl⟩)
    | cons first rest => exact append_cases (by simp [Predicate.isPlace]) rfl rfl
  | place operator content options =>
    have decided : field.request (add (.place operator content options)) =
        field.request (if field.subject.negated then throw (.negatedGeo field.subject.field)
          else append operator content options) := rfl
    by_cases negated : field.subject.negated = true
    · rw [if_pos negated] at decided
      exact .inr (.inl ⟨_, .negatedPlace operator content options negated, decided⟩)
    · rw [if_neg negated] at decided
      exact append_cases (fun both => negated both.2) rfl decided

end OpenField

/-- An open field while calls are made. -/
structure FieldRun extends OpenField where
  /-- The answers to the predicates so far. -/
  answers : List (Except QueryError Unit)

namespace FieldRun

/-- A field of a query, on which nothing has been called. -/
def start (query : Query) (field : String) (validating : Bool) : FieldRun :=
  ⟨⟨.checked field validating, query⟩, []⟩

/-- Make a call, if it ends. The field is what the call leaves, accepted or not. -/
def step (run : FieldRun) : FieldCall → Option FieldRun
  | .negate => (run.request OpenField.negate).map fun (_, field) => ⟨field, run.answers⟩
  | .predicate added => (run.request (OpenField.add added)).map fun (answer, field) =>
      ⟨field, run.answers ++ [answer]⟩

/-- Make calls one after another, if they end. -/
def after (run : FieldRun) (calls : List FieldCall) : Option FieldRun := calls.foldlM step run

/-- The criteria of those predicates that were accepted, on one path; each predicate comes with
the number of turns before it. -/
def accepted (path : String) (validating : Bool) (predicates : List (Predicate × Nat))
    (answers : List (Except QueryError Unit)) : List Criterion :=
  (predicates.zip answers).filterMap fun ((added, turns), answer) =>
    match answer with
    | .ok () =>
      some ⟨path, added.operator, added.content, added.options, decide (Odd turns), validating⟩
    | .error _ => none

variable {query : Query} {field path : String} {validating : Bool} {calls : List FieldCall}
  {turns : Nat} {earlier : List (Except QueryError Unit)}

/-- The calls after a first one are made on what it leaves, if it ends. -/
theorem after_cons (run : FieldRun) (call : FieldCall) (rest : List FieldCall) :
    run.after (call :: rest) = (run.step call).bind fun next => next.after rest :=
  List.foldlM_cons

/-- Turning negation over is counted. -/
theorem step_negate : step ⟨⟨.turned field validating turns, query⟩, earlier⟩ .negate =
    some ⟨⟨.turned field validating (turns + 1), query⟩, earlier⟩ := by
  rw [step, OpenField.request_negate, Option.map_some, FieldEnd.negate_turned]

/-- Adding a predicate does not end, or it is refused for a cause and changes nothing, or its
criterion is appended. -/
theorem step_predicate (run : FieldRun) (added : Predicate) :
    (run.subject.Endless run.query added ∧ run.step (.predicate added) = none) ∨
    (∃ cause, run.subject.Refuses run.query added cause ∧ run.step (.predicate added) =
      some { run with answers := run.answers ++ [.error cause] }) ∨
    ∃ path, run.query.translation run.subject.field = some path ∧
      (∀ cause, ¬ run.subject.Refuses run.query added cause) ∧
      run.step (.predicate added) =
        some { run with query := run.query.add (run.subject.criterion path added),
                        answers := run.answers ++ [.ok ()] } := by
  rcases run.add_cases added with
    ⟨endless, unanswered⟩ | ⟨cause, refuses, refused⟩ | ⟨path, known, accepts, appended⟩
  · exact .inl ⟨endless, by rw [step, unanswered, Option.map_none]⟩
  · exact .inr (.inl ⟨cause, refuses, by rw [step, refused, Option.map_some]⟩)
  · exact .inr (.inr ⟨path, known, accepts, by rw [step, appended, Option.map_some]⟩)

/-- Adding a predicate does not end exactly where it is endless. -/
theorem endless_iff_step (run : FieldRun) (added : Predicate) :
    run.subject.Endless run.query added ↔ run.step (.predicate added) = none := by
  rcases run.step_predicate added with
    ⟨endless, stepped⟩ | ⟨cause, refuses, stepped⟩ | ⟨path, known, -, stepped⟩
  · exact iff_of_true endless stepped
  · exact iff_of_false refuses.not_endless (by rw [stepped]; nofun)
  · exact iff_of_false (FieldEnd.not_endless_of_translation known) (by rw [stepped]; nofun)

/-- A predicate is refused for a cause where that is its answer and nothing else changes. -/
theorem refuses_iff_step (run : FieldRun) (added : Predicate) (cause : QueryError) :
    run.subject.Refuses run.query added cause ↔ run.step (.predicate added) =
      some { run with answers := run.answers ++ [.error cause] } := by
  rcases run.step_predicate added with
    ⟨endless, stepped⟩ | ⟨found, refuses, stepped⟩ | ⟨path, -, accepts, stepped⟩
  · rw [stepped]
    exact iff_of_false (fun refuses => refuses.not_endless endless) nofun
  · rw [stepped]
    refine ⟨fun again => by rw [refuses.unique again], fun same => ?_⟩
    obtain rfl : found = cause := by simpa using same
    exact refuses
  · rw [stepped]
    exact iff_of_false (accepts cause) fun same => by simp at same

/-- Calls do not end exactly where one of the predicates among them is endless. -/
theorem after_eq_none_iff :
    after ⟨⟨.turned field validating turns, query⟩, earlier⟩ calls = none ↔
      ∃ call ∈ FieldCall.predicates turns calls,
        (FieldEnd.turned field validating call.2).Endless query call.1 := by
  induction calls generalizing query turns earlier with
  | nil => simp [after, FieldCall.predicates]
  | cons call rest ih =>
    rw [after_cons]
    cases call with
    | negate => rw [step_negate, Option.bind_some, ih, FieldCall.predicates]
    | predicate added =>
      rw [FieldCall.predicates, List.exists_mem_cons_iff]
      rcases step_predicate ⟨⟨.turned field validating turns, query⟩, earlier⟩ added with
        ⟨endless, stepped⟩ | ⟨cause, refuses, stepped⟩ | ⟨path, known, accepts, stepped⟩
      · rw [stepped, Option.bind_none]
        exact iff_of_true rfl (.inl endless)
      · rw [stepped, Option.bind_some, ih]
        exact (or_iff_right refuses.not_endless).symm
      · have ended : ¬ (FieldEnd.turned field validating turns).Endless query added :=
          FieldEnd.not_endless_of_translation known
        rw [stepped, Option.bind_some, ih, or_iff_right ended]
        simp only [FieldEnd.endless_add]

/-- Calls that end append the criteria of the accepted predicates and turn negation over; a
predicate is refused exactly for the complaint about it. -/
theorem after_eq_some {run : FieldRun}
    (known : ∀ translated, query.translation field = some translated → translated = path)
    (ended : after ⟨⟨.turned field validating turns, query⟩, earlier⟩ calls = some run) :
    ∃ answers,
      List.Forall₂ (fun call answer => ∀ cause, answer = .error cause ↔
          (FieldEnd.turned field validating call.2).Refuses query call.1 cause)
        (FieldCall.predicates turns calls) answers ∧
      (.ok () ∈ answers → query.translation field = some path) ∧
      run = ⟨⟨.turned field validating (turns + FieldCall.turns calls),
        query.extend (accepted path validating (FieldCall.predicates turns calls) answers)⟩,
          earlier ++ answers⟩ := by
  induction calls generalizing query turns earlier with
  | nil =>
    obtain rfl := Option.some.inj ended
    exact ⟨[], .nil, nofun, by simp [FieldCall.turns, accepted, FieldCall.predicates]⟩
  | cons call rest ih =>
    rw [after_cons] at ended
    cases call with
    | negate =>
      rw [step_negate, Option.bind_some] at ended
      obtain ⟨answers, answered, translated, rfl⟩ := ih known ended
      refine ⟨answers, answered, translated, ?_⟩
      rw [FieldCall.turns, Nat.add_right_comm, Nat.add_assoc]
      rfl
    | predicate added =>
      rcases step_predicate ⟨⟨.turned field validating turns, query⟩, earlier⟩ added with
        ⟨-, stepped⟩ | ⟨cause, refuses, stepped⟩ | ⟨found, translates, accepts, stepped⟩
      · rw [stepped] at ended
        cases ended
      · rw [stepped, Option.bind_some] at ended
        obtain ⟨answers, answered, translated, rfl⟩ := ih known ended
        have refused (other : QueryError) :
            (.error cause : Except QueryError Unit) = .error other ↔
              (FieldEnd.turned field validating turns).Refuses query added other :=
          ⟨fun same => Except.error.inj same ▸ refuses,
            fun again => congrArg _ (refuses.unique again).symm⟩
        refine ⟨.error cause :: answers, .cons refused answered, fun among => ?_, ?_⟩
        · exact translated (by simpa using among)
        · rw [List.append_assoc]
          rfl
      · rw [stepped, Option.bind_some] at ended
        have same := Query.translation_congr (rfl : (query.add
          ((FieldEnd.turned field validating turns).criterion found added)).binding = _) field
        obtain ⟨answers, answered, translated, rfl⟩ := ih (same ▸ known) ended
        obtain rfl := known found translates
        simp only [FieldEnd.refuses_add] at answered
        have appended (cause : QueryError) : Except.ok () = .error cause ↔
            (FieldEnd.turned field validating turns).Refuses query added cause :=
          iff_of_false nofun (accepts cause)
        refine ⟨.ok () :: answers, .cons appended answered, fun _ => translates, ?_⟩
        rw [List.append_assoc, ← Query.extend_cons]
        rfl

/-- A field end appends exactly what its accepted predicates say. Calls on a field of a query
return, unless adding one of the predicates does not end; they all return where the walks to
parents end. Then the query has gained one criterion for each accepted predicate, in the order of
the calls and on the translated path, negated if the number of turns before it is odd. Whether now
or among these calls, a predicate is refused exactly for the complaint about it, and changes
nothing, and adding it does not end exactly where it is endless. -/
theorem calls_append_accepted (query : Query) (field : String) (validating : Bool)
    (calls : List FieldCall) :
    let begun := start query field validating
    let predicates := FieldCall.predicates 0 calls
    let turned := FieldEnd.turned field validating
    (begun.after calls = none ↔
      ∃ call ∈ predicates, (turned call.2).Endless query call.1) ∧
    ((∀ binding, query.binding = some binding → ∀ name, binding.mapper.WalksEnd name) →
      (begun.after calls).isSome = true) ∧
    ∀ run, begun.after calls = some run → ∃ path,
      List.Forall₂ (fun call answer => ∀ cause, answer = .error cause ↔
        (turned call.2).Refuses query call.1 cause) predicates run.answers ∧
      (.ok () ∈ run.answers → query.translation field = some path) ∧
      run.query = query.extend (accepted path validating predicates run.answers) ∧
      run.subject = turned (FieldCall.turns calls) ∧
      ∀ added,
        (run.step (.predicate added) = none ↔
          (turned (FieldCall.turns calls)).Endless query added) ∧
        ∀ cause, (turned (FieldCall.turns calls)).Refuses query added cause ↔
          run.step (.predicate added) =
            some { run with answers := run.answers ++ [.error cause] } := by
  intro begun predicates turned
  have opened : begun = ⟨⟨turned 0, query⟩, []⟩ := by
    simp [begun, turned, start, FieldEnd.checked, FieldEnd.turned]
  have endless : begun.after calls = none ↔
      ∃ call ∈ predicates, (turned call.2).Endless query call.1 := by
    rw [opened]
    exact after_eq_none_iff
  refine ⟨endless, fun ends => ?_, fun run ended => ?_⟩
  · rw [Option.isSome_iff_ne_none]
    intro unanswered
    obtain ⟨call, -, waits⟩ := endless.mp unanswered
    exact FieldEnd.not_endless ends waits
  · obtain ⟨path, known⟩ := query.exists_translation field
    rw [opened] at ended
    obtain ⟨answers, answered, translated, rfl⟩ := after_eq_some known ended
    rw [Nat.zero_add, List.nil_append]
    refine ⟨path, answered, translated, rfl, rfl, fun added => ⟨?_, fun cause => ?_⟩⟩
    · rw [← endless_iff_step]
      exact FieldEnd.endless_extend _
    · rw [← refuses_iff_step]
      exact (FieldEnd.refuses_extend _).symm

/-- A shape that extends an older shape, which is not registered, and circles, which extend
nothing. -/
def renewedShapesAndCircles : MapperPlan :=
  ⟨.standard, [(EntityModel.blank "Shape").inherit (.blank "Shape"), .blank "Circle"], [], []⟩

/-- A call on a field that no model has: it neither adds a criterion nor is refused, for the search
for circles among the ancestors of the shape does not end. -/
theorem call_without_end : ∃ mapper query, renewedShapesAndCircles.assemble = .ok mapper ∧
    Query.forEntity mapper "Circle" = .ok query ∧
    (∀ model ∈ mapper.models, model.field "radius" = none) ∧
    (start query "radius" true).after [.predicate (.equal (.int32 1))] = none := by
  obtain ⟨mapper, built⟩ : ∃ mapper, renewedShapesAndCircles.assemble = .ok mapper := ⟨_, rfl⟩
  obtain ⟨query, found⟩ : ∃ query, Query.forEntity mapper "Circle" = .ok query := by
    cases built
    exact ⟨_, rfl⟩
  refine ⟨mapper, query, built, found, ?_⟩
  cases built
  cases found
  exact ⟨by decide, rfl⟩

end FieldRun

end EntityMapping
