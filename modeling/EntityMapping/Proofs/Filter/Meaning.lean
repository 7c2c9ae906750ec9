import EntityMapping.Query.Basic
/-!
# Filter documents mean what their filters say

A filter document is read over predicates that are left open: all its entries must
hold, an explicit conjunction or disjunction is one of the documents it lists, and
any other entry says of its field what its operators say. Joining the operators on
one field and falling back to an explicit conjunction both keep this meaning, so the
document of a query means what the tree of its criteria says, under every reading.
-/

namespace EntityMapping

/-- What filter documents are read over. Both parts are left open. -/
structure FilterReading where
  /-- Whether an operator with a value holds of a field. -/
  holds : (field operator : String) → Bson → Prop
  /-- Whether an entry or item holds that has none of the forms of a filter document. -/
  formless : (key : String) → Bson → Prop

namespace FilterReading

variable (reading : FilterReading)

mutual

/-- An operator holds of a field. A negation does where its operators do not all hold. -/
def operator (field key : String) : Bson → Prop
  | .document negated =>
    if key = "$not" then ¬ operators field negated else reading.holds field key (.document negated)
  | value => reading.holds field key value

/-- All operators hold of a field. -/
def operators (field : String) : List (String × Bson) → Prop
  | [] => True
  | (key, value) :: rest => operator field key value ∧ operators field rest

end

mutual

/-- An entry of a filter document holds. -/
def entry (key : String) : Bson → Prop
  | .array parts =>
    if key = "$and" then every key parts
    else if key = "$or" then any key parts
    else reading.formless key (.array parts)
  | .document predicate => reading.operators key predicate
  | value => reading.formless key value

/-- All entries of a filter document hold. -/
def document : List (String × Bson) → Prop
  | [] => True
  | (key, value) :: rest => entry key value ∧ document rest

/-- Every document of a list holds. -/
def every (key : String) : List Bson → Prop
  | [] => True
  | .document part :: rest => document part ∧ every key rest
  | other :: rest => reading.formless key other ∧ every key rest

/-- Some document of a list holds. -/
def any (key : String) : List Bson → Prop
  | [] => False
  | .document part :: rest => document part ∨ any key rest
  | other :: rest => reading.formless key other ∨ any key rest

end

variable {reading}

/-- All operators hold when each of them does. -/
theorem operators_iff {field : String} {predicate : List (String × Bson)} :
    reading.operators field predicate ↔
      ∀ entry ∈ predicate, reading.operator field entry.1 entry.2 := by
  induction predicate with
  | nil => simp [operators]
  | cons entry rest ih =>
    rw [operators, ih, List.forall_mem_cons]

/-- A document holds when each of its entries does. -/
theorem document_iff {document : Document} :
    reading.document document ↔ ∀ entry ∈ document, reading.entry entry.1 entry.2 := by
  induction document with
  | nil => simp [FilterReading.document]
  | cons entry rest ih =>
    rw [FilterReading.document, ih, List.forall_mem_cons]

/-- Every one of some listed documents holds when each of them does. -/
theorem every_iff {key : String} {parts : List Document} :
    reading.every key (parts.map .document) ↔ ∀ part ∈ parts, reading.document part := by
  induction parts with
  | nil => simp [every]
  | cons part rest ih =>
    rw [List.map_cons, every, ih, List.forall_mem_cons]

/-- Some listed document holds when one of them does. -/
theorem any_iff {key : String} {parts : List Document} :
    reading.any key (parts.map .document) ↔ ∃ part ∈ parts, reading.document part := by
  induction parts with
  | nil => simp [any]
  | cons part rest ih =>
    simp only [List.map_cons, any, ih, List.mem_cons, exists_eq_or_imp]

/-- Storing a new value under a key adds what the value says, where it says that beside what
the key said before. -/
theorem document_insert {key : String} {existing joined : Bson} {document : Document}
    {further : Prop} (found : Keyed.get? key document = some existing)
    (joins : reading.entry key joined ↔ reading.entry key existing ∧ further) :
    reading.document (Keyed.insert key joined document) ↔
      reading.document document ∧ further := by
  induction document with
  | nil => simp at found
  | cons first rest ih =>
    obtain ⟨name, value⟩ := first
    rw [Keyed.get?] at found
    rw [Keyed.insert]
    by_cases same : name = key
    · rw [if_pos same] at found ⊢
      obtain rfl := Option.some.inj found
      rw [FilterReading.document, FilterReading.document, same, joins]
      exact and_right_comm
    · rw [if_neg same] at found ⊢
      rw [FilterReading.document, FilterReading.document, ih found, and_assoc]

end FilterReading

/-- No predicate of a filter document names an operator twice. -/
def Document.OperatorsApart (document : Document) : Prop :=
  ∀ key predicate, (key, Bson.document predicate) ∈ document → Keyed.Distinct predicate

namespace Filter

variable {reading : FilterReading}

/-- Joined operators are the existing ones followed by the incoming ones, and none of them
comes twice. -/
theorem mergeOperators_some {existing incoming joined : Bson}
    (merged : mergeOperators existing incoming = some joined) :
    ∃ before after, existing = .document before ∧ incoming = .document after ∧
      (Keyed.Distinct before → Keyed.Distinct after →
        joined = .document (before ++ after) ∧ Keyed.Distinct (before ++ after)) := by
  unfold mergeOperators at merged
  split at merged
  · rename_i before after
    split at merged
    · rename_i passed
      refine ⟨before, after, rfl, rfl, fun apart later => ?_⟩
      have fresh : ∀ entry ∈ after, Keyed.has entry.1 before = false := by
        simp only [Bool.and_eq_true, Bool.not_eq_true', List.any_eq_false,
          Bool.not_eq_true] at passed
        exact passed.2
      have whole : Keyed.Distinct (before ++ after) := by
        unfold Keyed.Distinct Keyed.keys at apart later ⊢
        rw [List.map_append, List.nodup_append]
        refine ⟨apart, later, ?_⟩
        rintro name known other member rfl
        obtain ⟨entry, stored, named⟩ := List.mem_map.mp member
        have unknown := fresh entry stored
        have found : (Keyed.get? entry.1 before).isSome = true :=
          Keyed.get?_isSome.mpr (named ▸ known)
        rw [Keyed.has, found] at unknown
        cases unknown
      rw [Keyed.overlay_new whole] at merged
      exact ⟨(Option.some.inj merged).symm, whole⟩
    · cases merged
  · cases merged

/-- Joined operators say what the existing and the incoming ones say. -/
theorem entry_mergeOperators {key : String} {existing incoming joined : Bson}
    (merged : mergeOperators existing incoming = some joined)
    (apart : ∀ predicate, existing = .document predicate → Keyed.Distinct predicate)
    (later : ∀ predicate, incoming = .document predicate → Keyed.Distinct predicate) :
    (∀ predicate, joined = .document predicate → Keyed.Distinct predicate) ∧
      (reading.entry key joined ↔ reading.entry key existing ∧ reading.entry key incoming) := by
  obtain ⟨before, after, rfl, rfl, joins⟩ := mergeOperators_some merged
  obtain ⟨rfl, whole⟩ := joins (apart before rfl) (later after rfl)
  constructor
  · rintro _ ⟨rfl⟩
    exact whole
  · simp only [FilterReading.entry, FilterReading.operators_iff, List.forall_mem_append]

/-- Merging the entries of a part adds what the part says. -/
theorem document_mergeEntries {part merged result : Document}
    (succeeds : mergeEntries merged part = some result) (apart : merged.OperatorsApart)
    (later : part.OperatorsApart) :
    result.OperatorsApart ∧
      (reading.document result ↔ reading.document merged ∧ reading.document part) := by
  induction part generalizing merged with
  | nil =>
    rw [mergeEntries] at succeeds
    obtain rfl := Option.some.inj succeeds
    exact ⟨apart, by simp [FilterReading.document]⟩
  | cons first rest ih =>
    obtain ⟨key, value⟩ := first
    have others : Document.OperatorsApart rest := fun name predicate member =>
      later name predicate (List.mem_cons_of_mem _ member)
    have own : ∀ predicate, value = .document predicate → Keyed.Distinct predicate := by
      rintro predicate rfl
      exact later key predicate (List.mem_cons_self ..)
    have stored : ∀ {content : Bson},
        (∀ predicate, content = .document predicate → Keyed.Distinct predicate) →
        Document.OperatorsApart (Keyed.insert key content merged) := by
      intro content distinct name predicate member
      rcases Keyed.mem_insert member with here | before
      · exact distinct predicate (Prod.mk.inj here).2.symm
      · exact apart name predicate before
    rw [mergeEntries] at succeeds
    rw [FilterReading.document]
    split at succeeds
    · rename_i unknown
      have fresh : key ∉ Keyed.keys merged := by
        rw [← Keyed.get?_isSome, unknown]
        exact Bool.false_ne_true
      obtain ⟨tidy, means⟩ := ih succeeds (stored own) others
      refine ⟨tidy, means.trans ?_⟩
      rw [Keyed.insert_new fresh, FilterReading.document_iff, List.forall_mem_append,
        ← FilterReading.document_iff, List.forall_mem_singleton, and_assoc]
    · rename_i existing found
      split at succeeds
      · rename_i joined joins
        have known : ∀ predicate, existing = .document predicate → Keyed.Distinct predicate := by
          rintro predicate rfl
          exact apart key predicate (Keyed.mem_of_get? found)
        obtain ⟨distinct, adds⟩ := entry_mergeOperators joins known own
        obtain ⟨tidy, means⟩ := ih succeeds (stored distinct) others
        refine ⟨tidy, means.trans ?_⟩
        rw [FilterReading.document_insert found adds, and_assoc]
      · cases succeeds

/-- A merged document says what its parts say. -/
theorem document_merge {parts : List Document} {merged result : Document}
    (succeeds : merge merged parts = some result) (apart : merged.OperatorsApart)
    (each : ∀ part ∈ parts, part.OperatorsApart) :
    result.OperatorsApart ∧ (reading.document result ↔
      reading.document merged ∧ ∀ part ∈ parts, reading.document part) := by
  induction parts generalizing merged with
  | nil =>
    rw [merge] at succeeds
    obtain rfl := Option.some.inj succeeds
    exact ⟨apart, by simp⟩
  | cons part rest ih =>
    rw [merge] at succeeds
    split at succeeds
    · rename_i next first
      obtain ⟨tidy, adds⟩ := document_mergeEntries first apart (each part (List.mem_cons_self ..))
      obtain ⟨kept, means⟩ := ih succeeds tidy fun other member =>
        each other (List.mem_cons_of_mem _ member)
      refine ⟨kept, ?_⟩
      rw [means, adds, List.forall_mem_cons, and_assoc]
    · cases succeeds

/-- Parts listed under an operator have no predicate of their own. -/
theorem joined_apart (operator : String) (parts : List Document) :
    (joined operator parts).OperatorsApart := by
  intro key predicate member
  obtain ⟨-, ⟨⟩⟩ := Prod.mk.inj (List.mem_singleton.mp member)

/-- The document of a group says what the group says of its parts. -/
theorem document_groupDocument (join : Join) {parts : List Document}
    (each : ∀ part ∈ parts, part.OperatorsApart) :
    (groupDocument join parts).OperatorsApart ∧
      (reading.document (groupDocument join parts) ↔
        match join with
        | .all => ∀ part ∈ parts, reading.document part
        | .any => parts = [] ∨ ∃ part ∈ parts, reading.document part) := by
  unfold groupDocument
  split
  · refine ⟨fun _ _ member => by simp at member, ?_⟩
    cases join <;> simp [FilterReading.document]
  · rename_i filled
    cases join with
    | all =>
      dsimp only
      cases merged : merge [] parts with
      | none =>
        refine ⟨joined_apart "$and" parts, ?_⟩
        simp [joined, FilterReading.document, FilterReading.entry, FilterReading.every_iff]
      | some result =>
        obtain ⟨tidy, means⟩ := document_merge merged (by simp [Document.OperatorsApart]) each
        refine ⟨tidy, means.trans ?_⟩
        simp [FilterReading.document]
    | any =>
      refine ⟨joined_apart "$or" parts, ?_⟩
      have nonempty : parts ≠ [] := filled
      simp [joined, FilterReading.document, FilterReading.entry, FilterReading.any_iff, nonempty]

mutual

/-- A filter holds: a criterion when its own document does, a group when all of its parts do, or
at least one does. A group without parts holds. -/
def Holds (reading : FilterReading) : Filter → Prop
  | .criterion single => reading.document single.document
  | .group .all parts => EveryHolds reading parts
  | .group .any parts => parts = [] ∨ SomeHolds reading parts

/-- Every filter of a list holds. -/
def EveryHolds (reading : FilterReading) : List Filter → Prop
  | [] => True
  | part :: rest => Holds reading part ∧ EveryHolds reading rest

/-- Some filter of a list holds. -/
def SomeHolds (reading : FilterReading) : List Filter → Prop
  | [] => False
  | part :: rest => Holds reading part ∨ SomeHolds reading rest

end

/-- A criterion names no operator twice. -/
theorem criterion_apart (single : Criterion) : single.document.OperatorsApart := by
  intro key predicate member
  have options : Keyed.Distinct
      (Keyed.overlay [(single.operator.key, single.value)] (single.options.getD [])) :=
    Keyed.Distinct.overlay (by simp [Keyed.Distinct, Keyed.keys]) _
  unfold Criterion.document at member
  dsimp only at member
  split at member
  · obtain ⟨-, ⟨⟩⟩ := Prod.mk.inj (List.mem_singleton.mp member)
    simp [Keyed.Distinct, Keyed.keys]
  · obtain ⟨-, ⟨⟩⟩ := Prod.mk.inj (List.mem_singleton.mp member)
    exact options

/-- Filters without documents are no filters. -/
theorem documents_eq_nil {filters : List Filter} : documents filters = [] ↔ filters = [] := by
  cases filters <;> simp [documents]

mutual

/-- The document of a filter says what the filter says. -/
theorem document_filter (reading : FilterReading) : ∀ filter : Filter,
    filter.document.OperatorsApart ∧ (reading.document filter.document ↔ filter.Holds reading)
  | .criterion single => by
    rw [document, Holds]
    exact ⟨criterion_apart single, Iff.rfl⟩
  | .group join parts => by
    obtain ⟨each, every, some⟩ := document_filters reading parts
    obtain ⟨apart, means⟩ := @document_groupDocument reading join _ each
    rw [document]
    refine ⟨apart, means.trans ?_⟩
    cases join with
    | all => rw [Holds, every]
    | any => rw [Holds, some, documents_eq_nil]

/-- The documents of filters say what the filters say. -/
theorem document_filters (reading : FilterReading) : ∀ filters : List Filter,
    (∀ part ∈ documents filters, part.OperatorsApart) ∧
      ((∀ part ∈ documents filters, reading.document part) ↔ EveryHolds reading filters) ∧
      ((∃ part ∈ documents filters, reading.document part) ↔ SomeHolds reading filters)
  | [] => by simp [documents, EveryHolds, SomeHolds]
  | part :: rest => by
    obtain ⟨apart, means⟩ := document_filter reading part
    obtain ⟨each, every, some⟩ := document_filters reading rest
    rw [documents, EveryHolds, SomeHolds]
    refine ⟨List.forall_mem_cons.mpr ⟨apart, each⟩, ?_, ?_⟩
    · rw [List.forall_mem_cons, means, every]
    · simp only [List.mem_cons, exists_eq_or_imp, means, some]

end

end Filter

/-- Whatever the predicates are, the document of a query means what the query says: every
criterion by its own document, and every group by its parts. -/
theorem Query.document_holds_iff (reading : FilterReading) (query : Query) :
    reading.document query.document ↔ query.filter.Holds reading :=
  (Filter.document_filter reading query.filter).2

example : ((Query.unbound.add ⟨"pages", .greaterThan, .int32 1, none, false, false⟩).add
    ⟨"pages", .greaterThan, .int32 2, none, false, false⟩).document =
    [("$and", .array [.document [("pages", .document [("$gt", .int32 1)])],
      .document [("pages", .document [("$gt", .int32 2)])]])] := rfl

end EntityMapping
