import Mathlib.Data.List.Forall2
import EntityMapping.Mapper.Assembly
import EntityMapping.Model.Declaration
import EntityMapping.Proofs.Query.Calls
/-!
# Checked criteria

A criterion carries a mark that its path was to be checked. Where the query is about
an entity, a marked criterion was checked: its path is known to the entity as a whole,
and it stands on the document path. A query about no entity has nothing to check
against; it marks its criteria all the same.
-/

namespace EntityMapping

/-- A field that is taken of a query, with the calls that are made on it. -/
structure FieldVisit where
  /-- The path of the field. -/
  field : String
  /-- Whether the path is to be checked; where nothing is said the query decides. -/
  asked : Option Bool
  /-- The calls. -/
  calls : List FieldCall

/-- The field end of a visit. -/
def FieldVisit.subject (visit : FieldVisit) (query : Query) : FieldEnd :=
  match visit.asked with
  | none => .ofQuery query visit.field
  | some validating => .checked visit.field validating

/-- Whether the path of a visit is checked. -/
def FieldVisit.validating (visit : FieldVisit) (query : Query) : Bool :=
  visit.asked.getD query.validating

/-- A criterion on a path of a query was checked. -/
structure Criterion.Checked (criterion : Criterion) (query : Query) (path : String)
    (binding : Binding) : Prop where
  /-- The query is about an entity. -/
  bound : query.binding = some binding
  /-- The entity is registered. -/
  registered : ∃ model, binding.mapper.model? binding.entity = some model
  /-- The path is known as a whole, and the criterion stands on the document path. -/
  resolved : ∃ known, binding.mapper.resolvePath? binding.entity path = some known ∧
    known.isResolved = true ∧ criterion.field = known.text

namespace Query

variable {query : Query}

/-- The ways to come by a query, whatever it holds. -/
inductive Made : Query → Prop
  /-- A query about no entity. -/
  | unbound : Made unbound
  /-- A query about a registered entity. -/
  | forEntity (mapper : Mapper) (entity : String) (query : Query) :
    Query.forEntity mapper entity = .ok query → Made query
  /-- An empty query about the same entity. -/
  | child (query : Query) : Made query → Made query.child
  /-- A query that has gained parts. -/
  | holding (query : Query) (parts : List Filter) : Made query → Made { query with parts := parts }

/-- The entity that a query is about is registered. -/
theorem Made.registered (made : query.Made) {binding : Binding}
    (bound : query.binding = some binding) :
    ∃ model, binding.mapper.model? binding.entity = some model := by
  induction made with
  | unbound => cases bound
  | forEntity mapper entity query found =>
    unfold Query.forEntity at found
    cases known : mapper.model? entity with
    | none => simp [known] at found
    | some model =>
      simp only [known, Except.ok.injEq] at found
      subst found
      cases bound
      exact ⟨model, known⟩
  | child query _ ih => exact ih bound
  | holding query parts _ ih => exact ih bound

/-- Take a field and make calls on it, if they end. -/
def visit (query : Query) (visit : FieldVisit) : Option Query :=
  (FieldRun.after ⟨⟨visit.subject query, query⟩, []⟩ visit.calls).map fun run => run.query

/-- Take fields one after another, if the calls end. -/
def visits (query : Query) (visits : List FieldVisit) : Option Query := visits.foldlM visit query

end Query

namespace FieldRun

variable {query : Query} {path : String} {validating : Bool} {criterion : Criterion}

/-- Where a query rejects a path, every predicate on it is refused. -/
theorem refuses_of_rejects {subject : FieldEnd} {binding : Binding}
    (rejects : query.Rejects subject.field subject.validating binding) (added : Predicate) :
    ∃ cause, subject.Refuses query added cause := by
  by_cases negated : added.isPlace = true ∧ subject.negated = true
  · cases added with
    | place operator content options => exact ⟨_, .negatedPlace operator content options negated.2⟩
    | value => cases negated.1
    | values => cases negated.1
  · cases empty : added.isEmptySet with
    | false => exact ⟨_, .unknownPath added binding negated empty rejects⟩
    | true =>
      cases added with
      | values operator content =>
        obtain rfl := List.isEmpty_iff.mp empty
        exact ⟨_, .emptySet operator⟩
      | value => cases empty
      | place => cases empty

/-- An accepted criterion stands on the path, and some predicate was accepted for it. -/
theorem of_mem_accepted {predicates : List (Predicate × Nat)}
    {answers : List (Except QueryError Unit)}
    (among : criterion ∈ accepted path validating predicates answers) :
    criterion.field = path ∧ criterion.validated = validating ∧
      ∃ call, (call, .ok ()) ∈ predicates.zip answers := by
  obtain ⟨⟨call, answer⟩, paired, made⟩ := List.mem_filterMap.mp among
  cases answer with
  | error => cases made
  | ok =>
    cases made
    exact ⟨rfl, rfl, call, paired⟩

end FieldRun

namespace Query

variable {query : Query}

/-- A query tells which criteria it has gained. -/
theorem extend_inj {first second : List Criterion} :
    query.extend first = query.extend second ↔ first = second := by
  refine ⟨fun same => ?_, fun same => congrArg _ same⟩
  have parts := List.append_cancel_left (congrArg Query.parts same)
  exact (List.map_inj_right fun _ _ => Filter.criterion.inj).mp parts

/-- What a visit says of the criteria that a query gains by it. -/
structure Explains (query : Query) (visit : FieldVisit) (criterion : Criterion) : Prop where
  /-- A criterion stands on the translated path. -/
  translated : query.translation visit.field = some criterion.field
  /-- A criterion is marked as the visit asks. -/
  marked : criterion.validated = visit.validating query
  /-- The path is not rejected. -/
  accepted : ∀ binding, ¬ query.Rejects visit.field (visit.validating query) binding

/-- A query that has gained criteria explains the same. -/
theorem Explains.of_extend {gained : List Criterion} {visit : FieldVisit} {criterion : Criterion}
    (explains : (query.extend gained).Explains visit criterion) :
    query.Explains visit criterion :=
  ⟨explains.translated, explains.marked, fun binding rejects =>
    explains.accepted binding ⟨rejects.bound, rejects.checking, rejects.unresolved⟩⟩

/-- A visit opens its field with no turns made, checked as it asks or else as the query says. -/
theorem subject_eq (query : Query) (visit : FieldVisit) :
    visit.subject query = .turned visit.field (visit.validating query) 0 := by
  obtain ⟨field, asked, calls⟩ := visit
  cases asked <;>
    simp [FieldVisit.subject, FieldVisit.validating, FieldEnd.ofQuery, FieldEnd.checked,
      FieldEnd.turned]

/-- A visit ends where the walks to parents end. -/
theorem visit_isSome
    (ends : ∀ binding, query.binding = some binding → ∀ name, binding.mapper.WalksEnd name)
    (visit : FieldVisit) : (query.visit visit).isSome = true := by
  rw [Query.visit, Option.isSome_map, subject_eq, Option.isSome_iff_ne_none]
  intro unanswered
  obtain ⟨call, -, endless⟩ := FieldRun.after_eq_none_iff.mp unanswered
  exact FieldEnd.not_endless ends endless

/-- A visit that ends appends criteria that it explains. -/
theorem visit_eq {next : Query} {visit : FieldVisit} (visited : query.visit visit = some next) :
    ∃ gained, next = query.extend gained ∧
      ∀ criterion ∈ gained, query.Explains visit criterion := by
  obtain ⟨run, ended, rfl⟩ := Option.map_eq_some_iff.mp visited
  rw [subject_eq] at ended
  obtain ⟨path, known⟩ := query.exists_translation visit.field
  obtain ⟨answers, answered, translates, rfl⟩ := FieldRun.after_eq_some known ended
  refine ⟨_, rfl, fun criterion among => ?_⟩
  obtain ⟨translated, marked, call, paired⟩ := FieldRun.of_mem_accepted among
  have added : (.ok () : Except QueryError Unit) ∈ answers := (List.of_mem_zip paired).2
  refine ⟨translated ▸ translates added, marked, fun binding rejects => ?_⟩
  -- An accepted predicate has no complaint, but a rejected path would be one.
  obtain ⟨cause, refuses⟩ := @FieldRun.refuses_of_rejects query
    (.turned visit.field (visit.validating query) call.2) binding rejects call.1
  cases (List.forall₂_zip answered paired cause).mpr refuses

/-- Visits end where the walks to parents end. -/
theorem visits_isSome
    (ends : ∀ binding, query.binding = some binding → ∀ name, binding.mapper.WalksEnd name)
    (visits : List FieldVisit) : (query.visits visits).isSome = true := by
  induction visits generalizing query with
  | nil => rfl
  | cons visit rest ih =>
    obtain ⟨next, visited⟩ := Option.isSome_iff_exists.mp (visit_isSome ends visit)
    obtain ⟨gained, rfl, -⟩ := visit_eq visited
    have onward : query.visits (visit :: rest) = (query.extend gained).visits rest := by
      rw [Query.visits, List.foldlM_cons, visited]
      rfl
    rw [onward]
    exact ih ends

/-- Visits that end append, each in its turn, criteria that they explain. -/
theorem visits_eq {next : Query} {visits : List FieldVisit}
    (visited : query.visits visits = some next) :
    ∃ gained, next = query.extend gained.flatten ∧
      List.Forall₂ (fun visit criteria => ∀ criterion ∈ criteria, query.Explains visit criterion)
        visits gained := by
  induction visits generalizing query with
  | nil =>
    obtain rfl := Option.some.inj visited
    exact ⟨[], (query.extend_nil).symm, .nil⟩
  | cons visit rest ih =>
    obtain ⟨between, first, later⟩ := Option.bind_eq_some_iff.mp visited
    obtain ⟨start, rfl, explained⟩ := visit_eq first
    obtain ⟨gained, rfl, others⟩ := ih later
    refine ⟨start :: gained, ?_, .cons explained
      (others.imp fun visit criteria known criterion among => (known criterion among).of_extend)⟩
    rw [List.flatten_cons, ← extend_append]

/-- A criterion that a visit explains and that is marked was checked, if the query is about an
entity at all. -/
theorem Explains.checked_iff {visit : FieldVisit} {criterion : Criterion} (made : query.Made)
    (explains : query.Explains visit criterion) (marked : criterion.validated = true) :
    (∃ binding, criterion.Checked query visit.field binding) ↔ query.binding.isSome = true := by
  constructor
  · rintro ⟨binding, checked⟩
    rw [checked.bound, Option.isSome_some]
  · intro about
    obtain ⟨binding, bound⟩ := Option.isSome_iff_exists.mp about
    have translated := explains.translated
    rw [translation, bound] at translated
    obtain ⟨known, answered, text⟩ := Option.map_eq_some_iff.mp translated
    refine ⟨binding, bound, made.registered bound, known, answered, ?_, text.symm⟩
    by_contra unresolved
    exact explains.accepted binding
      ⟨bound, explains.marked.symm.trans marked, known, answered, Bool.eq_false_iff.mpr unresolved⟩

/-- A marked criterion was checked exactly if the query is about an entity. The visits to a query
end where the walks to parents end, and then append, each in its turn, criteria on its translated
path that are marked as it asks. A marked criterion of a query about an entity stands on a path
that is known as a whole; on a query about no entity every path is taken as written, and no
criterion was checked, marked or not. -/
theorem marked_checked_iff (made : query.Made) (visits : List FieldVisit) :
    ((∀ binding, query.binding = some binding → ∀ name, binding.mapper.WalksEnd name) →
      (query.visits visits).isSome = true) ∧
    ∀ next, query.visits visits = some next →
      ∃ gained : List (List Criterion), next = query.extend gained.flatten ∧
        List.Forall₂ (fun visit criteria => ∀ criterion ∈ criteria,
            query.translation visit.field = some criterion.field ∧
            criterion.validated = visit.validating query ∧
            (criterion.validated = true →
              ((∃ binding, criterion.Checked query visit.field binding) ↔
                query.binding.isSome = true)))
          visits gained := by
  refine ⟨fun ends => visits_isSome ends visits, fun next visited => ?_⟩
  obtain ⟨gained, ended, explained⟩ := visits_eq visited
  refine ⟨gained, ended, explained.imp fun visit criteria known criterion among => ?_⟩
  have explains := known criterion among
  exact ⟨explains.translated, explains.marked, explains.checked_iff made⟩

/-- People have a name, which documents call otherwise. -/
def people : MapperPlan :=
  ⟨.standard, [{ EntityModel.blank "Person" with
    fields := [(Field.plain "name" (.scalar .string)).storedAs "n"] }], [], []⟩

/-- A name that is asked to be checked: the criterion is marked, and it was checked. -/
theorem marked_checked_name : ∃ mapper query criterion,
    people.assemble = .ok mapper ∧ Query.forEntity mapper "Person" = .ok query ∧ query.Made ∧
    query.visits [⟨"name", some true, [.predicate (.equal (.string "Ann"))]⟩] =
      some (query.extend [criterion]) ∧
    criterion.validated = true ∧ criterion.Checked query "name" ⟨mapper, "Person"⟩ := by
  obtain ⟨mapper, built⟩ : ∃ mapper, people.assemble = .ok mapper := ⟨_, rfl⟩
  obtain ⟨query, found⟩ : ∃ query, Query.forEntity mapper "Person" = .ok query := by
    cases built
    exact ⟨_, rfl⟩
  have made := Made.forEntity mapper "Person" query found
  have about : query.binding = some ⟨mapper, "Person"⟩ ∧ query.visits
      [⟨"name", some true, [.predicate (.equal (.string "Ann"))]⟩] =
        some (query.extend [⟨"n", .equal, .string "Ann", none, false, true⟩]) := by
    cases built
    cases found
    exact ⟨rfl, rfl⟩
  obtain ⟨gained, gains, explained⟩ := (marked_checked_iff made
    [⟨"name", some true, [.predicate (.equal (.string "Ann"))]⟩]).2 _ about.2
  obtain _ | ⟨known, rest⟩ := explained
  cases rest
  rw [List.flatten_singleton] at gains
  obtain rfl := extend_inj.mp gains
  obtain ⟨-, -, checked⟩ := known _ (List.mem_singleton_self _)
  obtain ⟨binding, checked⟩ := (checked rfl).mpr (by rw [about.1]; rfl)
  obtain rfl := Option.some.inj (checked.bound.symm.trans about.1)
  exact ⟨mapper, query, _, built, found, made, about.2, rfl, checked⟩

/-- A path of a query about no entity is marked as checked, though nothing was checked. -/
theorem unbound_marked_unchecked : ∃ criterion,
    Query.unbound.visits [⟨"nickname", some true, [.predicate (.equal (.int32 1))]⟩] =
      some (Query.unbound.extend [criterion]) ∧
    criterion.validated = true ∧
    ∀ binding, ¬ criterion.Checked Query.unbound "nickname" binding :=
  ⟨_, rfl, rfl, fun _ checked => nomatch checked.bound⟩

end Query

end EntityMapping
