import EntityMapping.Lifecycle.Hook
import Mathlib.Data.List.Forall2
/-!
# Steps that may fail

Writing, reading and hooks are steps over a state: each ends in a result or a
failure and leaves a state in either case. `perform` runs a step, and its
equations replace the monad in every later proof. Five readings of a step recur:
`Ensures`, whatever succeeds has a property, `FailsWith`, whatever fails has one,
`Judges`, success and failure both tell what the step was given, `Yields`, the step
succeeds from every state without changing it, and `Steady`, the step ends alike from
every state without changing it.
-/

namespace EntityMapping

variable {ε σ α β : Type}

/-- The outcome of a step from a state, and the state after it. -/
def perform (action : ExceptT ε (StateM σ) α) (state : σ) : Except ε α × σ :=
  action.run.run state

/-- Steps are equal when they do the same from every state. -/
theorem perform_ext {left right : ExceptT ε (StateM σ) α}
    (same : ∀ state, perform left state = perform right state) : left = right :=
  funext same

/-- A result leaves the state alone. -/
@[simp] theorem perform_pure (value : α) (state : σ) :
    perform (pure value : ExceptT ε (StateM σ) α) state = (.ok value, state) := rfl

/-- A failure leaves the state alone. -/
@[simp] theorem perform_throw (cause : ε) (state : σ) :
    perform (throw cause : ExceptT ε (StateM σ) α) state = (.error cause, state) := rfl

/-- The state is read. -/
@[simp] theorem perform_get (state : σ) :
    perform (get : ExceptT ε (StateM σ) σ) state = (.ok state, state) := rfl

/-- A sequence runs its second step on what the first leaves, unless the first fails. -/
theorem perform_bind (action : ExceptT ε (StateM σ) α) (next : α → ExceptT ε (StateM σ) β)
    (state : σ) : perform (action >>= next) state =
      match perform action state with
      | (.ok value, after) => perform (next value) after
      | (.error cause, after) => (.error cause, after) := by
  change (match action state with
    | (outcome, after) => ExceptT.bindCont next outcome after) = _
  unfold perform
  change _ = match action state with
      | (.ok value, after) => next value after
      | (.error cause, after) => (.error cause, after)
  rcases action state with ⟨_ | _, _⟩ <;> rfl

/-- A sequence whose first step succeeds. -/
theorem perform_bind_ok {action : ExceptT ε (StateM σ) α} {state after : σ} {value : α}
    (first : perform action state = (.ok value, after))
    (next : α → ExceptT ε (StateM σ) β) :
    perform (action >>= next) state = perform (next value) after := by
  rw [perform_bind, first]

/-- A sequence whose first step fails. -/
theorem perform_bind_error {action : ExceptT ε (StateM σ) α} {state after : σ} {cause : ε}
    (first : perform action state = (.error cause, after))
    (next : α → ExceptT ε (StateM σ) β) :
    perform (action >>= next) state = (.error cause, after) := by
  rw [perform_bind, first]

/-- A function of the result changes neither the failures nor the states. -/
theorem perform_map (change : α → β) (action : ExceptT ε (StateM σ) α) (state : σ) :
    perform (change <$> action) state =
      ((perform action state).1.map change, (perform action state).2) := by
  rw [map_eq_pure_bind, perform_bind]
  rcases perform action state with ⟨_ | _, _⟩ <;> rfl

/-- A handler runs where the step fails, on the state the failure leaves. -/
theorem perform_tryCatch (action : ExceptT ε (StateM σ) α)
    (handle : ε → ExceptT ε (StateM σ) α) (state : σ) :
    perform (tryCatch action handle) state =
      match perform action state with
      | (.ok value, after) => (.ok value, after)
      | (.error cause, after) => perform (handle cause) after := by
  change (match action state with
    | (outcome, after) =>
      (match outcome with
      | .ok value => (pure (Except.ok value) : StateM σ (Except ε α))
      | .error cause => handle cause) after) = _
  unfold perform
  change _ = match action state with
      | (.ok value, after) => (Except.ok value, after)
      | (.error cause, after) => handle cause after
  rcases action state with ⟨_ | _, _⟩ <;> rfl

/-- A computation in two parts succeeds when both parts do. -/
theorem ok_of_bind {computation : Except ε α} {next : α → Except ε β} {result : β}
    (succeeds : computation >>= next = .ok result) :
    ∃ value, computation = .ok value ∧ next value = .ok result := by
  cases computation with
  | error cause => cases succeeds
  | ok value => exact ⟨value, rfl, succeeds⟩

/-- A changed computation succeeds when the computation does. -/
theorem ok_of_map {computation : Except ε α} {change : α → β} {result : β}
    (succeeds : computation.map change = .ok result) :
    ∃ value, computation = .ok value ∧ change value = result := by
  cases computation with
  | error cause => cases succeeds
  | ok value => exact ⟨value, rfl, Except.ok.inj succeeds⟩

/-- A computation in two parts fails in one of them. -/
theorem error_of_bind {computation : Except ε α} {next : α → Except ε β} {cause : ε}
    (fails : computation >>= next = .error cause) :
    computation = .error cause ∨ ∃ value, next value = .error cause := by
  cases computation with
  | error other =>
    cases fails
    exact .inl rfl
  | ok value => exact .inr ⟨value, fails⟩

/-- A changed computation fails as the computation does. -/
theorem error_of_map {computation : Except ε α} {change : α → β} {cause : ε}
    (fails : computation.map change = .error cause) : computation = .error cause := by
  cases computation with
  | error other =>
    cases fails
    rfl
  | ok value => cases fails

/-- A walk over a list keeps what each of its steps keeps. -/
theorem foldlM_keeps {step : β → α → Except ε β} {holds : β → Prop}
    (keeps : ∀ start item after, holds start → step start item = .ok after → holds after)
    {items : List α} {start after : β} (begins : holds start)
    (walked : items.foldlM step start = .ok after) : holds after := by
  induction items generalizing start with
  | nil =>
    rw [List.foldlM_nil] at walked
    cases walked
    exact begins
  | cons item rest ih =>
    rw [List.foldlM_cons] at walked
    obtain ⟨next, first, later⟩ := ok_of_bind walked
    exact ih (keeps start item next begins first) later

/-- A computation in two parts succeeds exactly where both parts do. -/
theorem exists_bind_ok_iff {computation : Except ε α} {next : α → Except ε β} :
    (∃ result, computation >>= next = .ok result) ↔
      ∃ value, computation = .ok value ∧ ∃ result, next value = .ok result := by
  constructor
  · rintro ⟨result, succeeds⟩
    obtain ⟨value, first, second⟩ := ok_of_bind succeeds
    exact ⟨value, first, result, second⟩
  · rintro ⟨value, first, result, second⟩
    exact ⟨result, by rw [first]; exact second⟩

/-- Steps over a list succeed exactly where each of them does. -/
theorem exists_mapM_ok_iff {step : α → Except ε β} {items : List α} :
    (∃ results, items.mapM step = .ok results) ↔
      ∀ item ∈ items, ∃ result, step item = .ok result := by
  induction items with
  | nil => exact ⟨fun _ => by simp, fun _ => ⟨[], rfl⟩⟩
  | cons item rest ih =>
    rw [List.mapM_cons, exists_bind_ok_iff, List.forall_mem_cons, ← ih]
    constructor
    · rintro ⟨value, first, later⟩
      obtain ⟨values, others, -⟩ := exists_bind_ok_iff.mp later
      exact ⟨⟨value, first⟩, values, others⟩
    · rintro ⟨⟨value, first⟩, values, others⟩
      exact ⟨value, first, exists_bind_ok_iff.mpr ⟨values, others, _, rfl⟩⟩

/-- The results of steps over a list are those of each of them. -/
theorem forall₂_of_mapM {step : α → Except ε β} {items : List α} {results : List β}
    (done : items.mapM step = .ok results) :
    List.Forall₂ (fun item result => step item = .ok result) items results := by
  induction items generalizing results with
  | nil =>
    rw [List.mapM_nil] at done
    cases done
    exact .nil
  | cons item rest ih =>
    rw [List.mapM_cons] at done
    obtain ⟨value, first, later⟩ := ok_of_bind done
    obtain ⟨values, others, last⟩ := ok_of_bind later
    cases last
    exact .cons first (ih others)

/-- Steps over a list give results exactly where each of them gives its own. -/
theorem mapM_eq_ok {step : α → Except ε β} {items : List α} {results : List β} :
    items.mapM step = .ok results ↔
      List.Forall₂ (fun item result => step item = .ok result) items results := by
  refine ⟨forall₂_of_mapM, fun each => ?_⟩
  induction each with
  | nil => rfl
  | cons first _ ih =>
    rw [List.mapM_cons, first, ih]
    rfl

/-- Steps over a list fail as one of them does. -/
theorem mem_of_mapM_error {step : α → Except ε β} {items : List α} {cause : ε}
    (failed : items.mapM step = .error cause) : ∃ item ∈ items, step item = .error cause := by
  induction items with
  | nil => cases failed
  | cons item rest ih =>
    rw [List.mapM_cons] at failed
    cases first : step item with
    | error other =>
      rw [first] at failed
      cases failed
      exact ⟨item, by simp, first⟩
    | ok value =>
      rw [first] at failed
      cases others : rest.mapM step with
      | error other =>
        rw [others] at failed
        cases failed
        obtain ⟨culprit, member, guilty⟩ := ih others
        exact ⟨culprit, by simp [member], guilty⟩
      | ok values =>
        rw [others] at failed
        cases failed

/-- Steps over entries that keep the names give results exactly where each of them gives its own. -/
theorem mapM_entries_eq_ok {step : α → Except ε β} {entries : Keyed α} {results : Keyed β} :
    (entries.mapM fun entry => (step entry.2).map (entry.1, ·)) = .ok results ↔
      List.Forall₂ (fun entry result => entry.1 = result.1 ∧ step entry.2 = .ok result.2)
        entries results := by
  have each : ∀ (entry : String × α) (result : String × β),
      (step entry.2).map (entry.1, ·) = .ok result ↔
        entry.1 = result.1 ∧ step entry.2 = .ok result.2 := by
    rintro ⟨key, value⟩ ⟨name, found⟩
    cases step value <;> simp [Except.map]
  rw [mapM_eq_ok]
  simp only [each]

/-- What is related part by part is so with each part in its place. -/
theorem forall₂_mem {related : α → β → Prop} {left : List α} {right : List β}
    (each : List.Forall₂ related left right) :
    List.Forall₂ (fun one other => one ∈ left ∧ other ∈ right ∧ related one other) left right := by
  refine List.forall₂_iff_get.mpr ⟨each.length_eq, fun place first second => ?_⟩
  exact ⟨List.get_mem .., List.get_mem .., each.get first second⟩

/-- Each part on the left has one it is related to on the right. -/
theorem exists_of_mem_left {related : α → β → Prop} {left : List α} {right : List β}
    (each : List.Forall₂ related left right) : ∀ one ∈ left, ∃ other, related one other := by
  induction each with
  | nil => simp
  | cons first _ ih => exact List.forall_mem_cons.mpr ⟨⟨_, first⟩, ih⟩

/-- Parts are all related in one way exactly where they are in another, if each of them is. -/
theorem forall₂_iff {related other : α → β → Prop} {left : List α} {right : List β}
    (each : List.Forall₂ (fun one last => related one last ↔ other one last) left right) :
    List.Forall₂ related left right ↔ List.Forall₂ other left right := by
  induction each with
  | nil => exact iff_of_true .nil .nil
  | cons first _ ih => rw [List.forall₂_cons, List.forall₂_cons, first, ih]

/-- Two walks in a row relate each part to the last one in its place. -/
theorem exists_forall₂_iff {γ : Type} {first : α → β → Prop} {second : β → γ → Prop}
    {left : List α} {right : List γ} :
    (∃ middle, List.Forall₂ first left middle ∧ List.Forall₂ second middle right) ↔
      List.Forall₂ (fun one other => ∃ between, first one between ∧ second between other)
        left right := by
  constructor
  · rintro ⟨middle, begins, ends⟩
    induction begins generalizing right with
    | nil =>
      cases ends
      exact .nil
    | cons here _ ih =>
      cases ends with
      | cons there later => exact .cons ⟨_, here, there⟩ (ih later)
  · intro both
    induction both with
    | nil => exact ⟨[], .nil, .nil⟩
    | cons here _ ih =>
      obtain ⟨between, begins, ends⟩ := here
      obtain ⟨middle, starts, stops⟩ := ih
      exact ⟨between :: middle, .cons begins starts, .cons ends stops⟩

/-- A walk over a list keeps track of the items it has seen, where each of its steps does. -/
theorem foldlM_tracks {step : β → α → Except ε β} {holds : List α → β → Prop}
    (keeps : ∀ seen start item after, holds seen start → step start item = .ok after →
      holds (seen ++ [item]) after)
    {items seen : List α} {start after : β} (begins : holds seen start)
    (walked : items.foldlM step start = .ok after) : holds (seen ++ items) after := by
  induction items generalizing seen start with
  | nil =>
    rw [List.foldlM_nil] at walked
    cases walked
    rwa [List.append_nil]
  | cons item rest ih =>
    rw [List.foldlM_cons] at walked
    obtain ⟨next, first, later⟩ := ok_of_bind walked
    have whole := ih (keeps seen start item next begins first) later
    rwa [List.append_assoc, List.singleton_append] at whole

/-- A walk whose steps accept an item exactly where it fits by itself and agrees with every item
seen before it succeeds exactly where all items fit and agree, in their order. -/
theorem exists_foldlM_ok_iff {step : β → α → Except ε β} {holds : List α → β → Prop}
    {fits : α → Prop} {agrees : α → α → Prop}
    (accepts : ∀ seen start item, holds seen start → ((∃ after, step start item = .ok after) ↔
      fits item ∧ ∀ earlier ∈ seen, agrees earlier item))
    (keeps : ∀ seen start item after, holds seen start → step start item = .ok after →
      holds (seen ++ [item]) after)
    {items seen : List α} {start : β} (begins : holds seen start) :
    (∃ after, items.foldlM step start = .ok after) ↔ (∀ item ∈ items, fits item) ∧
      items.Pairwise agrees ∧ ∀ earlier ∈ seen, ∀ item ∈ items, agrees earlier item := by
  induction items generalizing seen start with
  | nil => exact ⟨fun _ => by simp, fun _ => ⟨start, rfl⟩⟩
  | cons item rest ih =>
    rw [List.foldlM_cons, exists_bind_ok_iff]
    constructor
    · rintro ⟨next, first, later⟩
      obtain ⟨fit, agree⟩ := (accepts seen start item begins).mp ⟨next, first⟩
      obtain ⟨fits, agrees, before⟩ := (ih (keeps seen start item next begins first)).mp later
      refine ⟨List.forall_mem_cons.mpr ⟨fit, fits⟩,
        List.pairwise_cons.mpr ⟨before item (by simp), agrees⟩, fun earlier known => ?_⟩
      exact List.forall_mem_cons.mpr ⟨agree earlier known, before earlier (by simp [known])⟩
    · rintro ⟨fits, agrees, before⟩
      obtain ⟨fit, fits⟩ := List.forall_mem_cons.mp fits
      obtain ⟨here, agrees⟩ := List.pairwise_cons.mp agrees
      obtain ⟨next, first⟩ := (accepts seen start item begins).mpr
        ⟨fit, fun earlier known => before earlier known item (by simp)⟩
      refine ⟨next, first, (ih (keeps seen start item next begins first)).mpr
        ⟨fits, agrees, fun earlier known other member => ?_⟩⟩
      rcases List.mem_append.mp known with old | last
      · exact before earlier old other (by simp [member])
      · obtain rfl := List.mem_singleton.mp last
        exact here other member

/-- Walks whose steps do the same are the same. -/
theorem mapM_congr {m : Type → Type} [Monad m] [LawfulMonad m] {left right : α → m β}
    {items : List α} (same : ∀ item ∈ items, left item = right item) :
    items.mapM left = items.mapM right := by
  induction items with
  | nil => rw [List.mapM_nil, List.mapM_nil]
  | cons item rest ih =>
    rw [List.mapM_cons, List.mapM_cons, same item (by simp),
      ih fun later member => same later (by simp [member])]

/-- Walks whose steps do the same from everything found are the same. -/
theorem foldlM_congr {left right : β → α → ExceptT ε (StateM σ) β} {items : List α}
    (same : ∀ found, ∀ item ∈ items, left found item = right found item) (start : β) :
    items.foldlM left start = items.foldlM right start := by
  induction items generalizing start with
  | nil => rw [List.foldlM_nil, List.foldlM_nil]
  | cons item rest ih =>
    rw [List.foldlM_cons, List.foldlM_cons, same start item (by simp)]
    have later : ∀ found, ∀ item ∈ rest, left found item = right found item :=
      fun found item member => same found item (by simp [member])
    exact bind_congr fun found => ih later found

/-- Every success of a step has a property. -/
def Ensures (action : ExceptT ε (StateM σ) α) (holds : α → Prop) : Prop :=
  ∀ state value after, perform action state = (.ok value, after) → holds value

namespace Ensures

/-- A result that has the property. -/
theorem pure {value : α} {holds : α → Prop} (fact : holds value) :
    Ensures (Pure.pure value : ExceptT ε (StateM σ) α) holds := by
  intro state result after ran
  simp only [perform_pure, Prod.mk.injEq, Except.ok.injEq] at ran
  exact ran.1 ▸ fact

/-- A failure has no success. -/
theorem throw {cause : ε} {holds : α → Prop} :
    Ensures (MonadExcept.throw cause : ExceptT ε (StateM σ) α) holds := by
  intro state result after ran
  change (Except.error cause, state) = _ at ran
  simp at ran

/-- The property of the first step is what the second starts from. -/
theorem bind {action : ExceptT ε (StateM σ) α} {next : α → ExceptT ε (StateM σ) β}
    {holds : α → Prop} {goal : β → Prop} (first : Ensures action holds)
    (second : ∀ value, holds value → Ensures (next value) goal) :
    Ensures (action >>= next) goal := by
  intro state result after ran
  rw [perform_bind] at ran
  rcases middle : perform action state with ⟨_ | value, between⟩
  · simp [middle] at ran
  · rw [middle] at ran
    exact second value (first state value between middle) between result after ran

/-- A weaker property. -/
theorem weaken {action : ExceptT ε (StateM σ) α} {holds goal : α → Prop}
    (fact : Ensures action holds) (weaker : ∀ value, holds value → goal value) :
    Ensures action goal :=
  fun state value after ran => weaker value (fact state value after ran)

/-- Nothing is claimed of the result. -/
theorem trivial (action : ExceptT ε (StateM σ) α) : Ensures action fun _ => True :=
  fun _ _ _ _ => True.intro

/-- Two second steps that do the same after whatever the first step gives. -/
theorem bind_congr {action : ExceptT ε (StateM σ) α} {holds : α → Prop}
    (fact : Ensures action holds) {left right : α → ExceptT ε (StateM σ) β}
    (same : ∀ value, holds value → left value = right value) :
    action >>= left = action >>= right := by
  refine perform_ext fun state => ?_
  rw [perform_bind, perform_bind]
  rcases ran : perform action state with ⟨_ | value, after⟩
  · rfl
  · exact congrArg (perform · after) (same value (fact state value after ran))

/-- A function of the result. -/
theorem map {action : ExceptT ε (StateM σ) α} {change : α → β} {goal : β → Prop}
    (fact : Ensures action fun value => goal (change value)) :
    Ensures (change <$> action) goal := by
  rw [map_eq_pure_bind]
  exact fact.bind fun value known => Ensures.pure known

/-- A step with a handler, both with the property. -/
theorem tryCatch {action : ExceptT ε (StateM σ) α} {handle : ε → ExceptT ε (StateM σ) α}
    {holds : α → Prop} (fact : Ensures action holds)
    (handled : ∀ cause, Ensures (handle cause) holds) :
    Ensures (MonadExcept.tryCatch action handle) holds := by
  intro state result after ran
  have ran := (perform_tryCatch action handle state).symm.trans ran
  rcases outcome : perform action state with ⟨cause | value, middle⟩
  · rw [outcome] at ran
    exact handled cause middle result after ran
  · rw [outcome] at ran
    exact fact state result after (outcome.trans ran)

/-- Steps over a list, each with the property. -/
theorem mapM {step : α → ExceptT ε (StateM σ) β} {items : List α} {holds : β → Prop}
    (each : ∀ item ∈ items, Ensures (step item) holds) :
    Ensures (items.mapM step) fun results => ∀ result ∈ results, holds result := by
  induction items with
  | nil =>
    rw [List.mapM_nil]
    exact Ensures.pure (by simp)
  | cons item rest ih =>
    rw [List.mapM_cons]
    refine (each item (by simp)).bind fun value known => ?_
    refine (ih fun later member => each later (by simp [member])).bind fun values all => ?_
    exact Ensures.pure (by simpa using ⟨known, all⟩)

/-- A walk over a list that keeps an invariant. -/
theorem foldlM {step : β → α → ExceptT ε (StateM σ) β} {items : List α} {holds : β → Prop}
    {start : β} (begins : holds start)
    (keeps : ∀ found, holds found → ∀ item ∈ items, Ensures (step found item) holds) :
    Ensures (items.foldlM step start) holds := by
  induction items generalizing start with
  | nil =>
    rw [List.foldlM_nil]
    exact Ensures.pure begins
  | cons item rest ih =>
    rw [List.foldlM_cons]
    refine (keeps start begins item (by simp)).bind fun found known => ?_
    exact ih known fun found known later member => keeps found known later (by simp [member])

/-- A walk over a list that keeps an invariant, where each item brings about something that
no later step undoes. -/
theorem foldlM_each {step : β → α → ExceptT ε (StateM σ) β} {items : List α} {holds : β → Prop}
    {reached : α → β → Prop} {start : β} (begins : holds start)
    (steps : ∀ found, holds found → ∀ item ∈ items, Ensures (step found item) fun next =>
      holds next ∧ reached item next ∧ ∀ other, reached other found → reached other next) :
    Ensures (items.foldlM step start) fun last =>
      holds last ∧ (∀ item ∈ items, reached item last) ∧
        ∀ other, reached other start → reached other last := by
  induction items generalizing start with
  | nil =>
    rw [List.foldlM_nil]
    exact Ensures.pure ⟨begins, by simp, fun _ known => known⟩
  | cons item rest ih =>
    rw [List.foldlM_cons]
    refine (steps start begins item (by simp)).bind fun next stepped => ?_
    obtain ⟨kept, here, others⟩ := stepped
    refine (ih kept fun found known later member =>
      steps found known later (by simp [member])).weaken fun last walked => ?_
    obtain ⟨known, later, still⟩ := walked
    refine ⟨known, fun one member => ?_, fun other before => still other (others other before)⟩
    rcases List.mem_cons.mp member with rfl | among
    · exact still one here
    · exact later one among

end Ensures

/-- Every failure of a step has a property. -/
def FailsWith (action : ExceptT ε (StateM σ) α) (allowed : ε → Prop) : Prop :=
  ∀ state cause after, perform action state = (.error cause, after) → allowed cause

namespace FailsWith

variable {allowed : ε → Prop}

/-- A result is no failure. -/
theorem pure (value : α) :
    FailsWith (Pure.pure value : ExceptT ε (StateM σ) α) allowed := by
  intro state cause after ran
  simp at ran

/-- A failure that has the property. -/
theorem throw {cause : ε} (fact : allowed cause) :
    FailsWith (MonadExcept.throw cause : ExceptT ε (StateM σ) α) allowed := by
  intro state other after ran
  change (Except.error cause, state) = _ at ran
  simp only [Prod.mk.injEq, Except.error.injEq] at ran
  exact ran.1 ▸ fact

/-- A sequence fails in its first step, or in the second on a result of the first. -/
theorem bind {action : ExceptT ε (StateM σ) α} {next : α → ExceptT ε (StateM σ) β}
    {holds : α → Prop} (first : FailsWith action allowed) (given : Ensures action holds)
    (second : ∀ value, holds value → FailsWith (next value) allowed) :
    FailsWith (action >>= next) allowed := by
  intro state cause after ran
  rw [perform_bind] at ran
  rcases middle : perform action state with ⟨early | value, between⟩
  · rw [middle] at ran
    obtain rfl : early = cause := Except.error.inj (congrArg Prod.fst ran)
    exact first state early between middle
  · rw [middle] at ran
    exact second value (given state value between middle) between cause after ran

/-- A sequence whose second step fails with the property whatever the first one gives. -/
theorem andThen {action : ExceptT ε (StateM σ) α} {next : α → ExceptT ε (StateM σ) β}
    (first : FailsWith action allowed) (second : ∀ value, FailsWith (next value) allowed) :
    FailsWith (action >>= next) allowed :=
  first.bind (Ensures.trivial action) fun value _ => second value

/-- A function of the result changes no failure. -/
theorem map {action : ExceptT ε (StateM σ) α} (fact : FailsWith action allowed)
    (change : α → β) : FailsWith (change <$> action) allowed := by
  rw [map_eq_pure_bind]
  exact fact.andThen fun value => FailsWith.pure (change value)

/-- A step with a handler fails as its handler does. -/
theorem tryCatch {action : ExceptT ε (StateM σ) α} {handle : ε → ExceptT ε (StateM σ) α}
    (handled : ∀ cause, FailsWith (handle cause) allowed) :
    FailsWith (MonadExcept.tryCatch action handle) allowed := by
  intro state cause after ran
  have ran := (perform_tryCatch action handle state).symm.trans ran
  rcases outcome : perform action state with ⟨early | value, middle⟩
  · rw [outcome] at ran
    exact handled early middle cause after ran
  · rw [outcome] at ran
    cases ran

/-- A step whose failures are reported in another form. -/
theorem rethrow {action : ExceptT ε (StateM σ) α} (fact : FailsWith action allowed)
    (report : ε → ε) :
    FailsWith (MonadExcept.tryCatch action fun cause => MonadExcept.throw (report cause))
      fun cause => ∃ source, cause = report source ∧ allowed source := by
  intro state cause after ran
  have ran := (perform_tryCatch action _ state).symm.trans ran
  rcases outcome : perform action state with ⟨source | value, middle⟩
  · rw [outcome] at ran
    obtain ⟨same, -⟩ := Prod.mk.inj ran
    exact ⟨source, (Except.error.inj same).symm, fact state source middle outcome⟩
  · rw [outcome] at ran
    cases ran

/-- A walk over a list fails as one of its steps does. -/
theorem foldlM {step : β → α → ExceptT ε (StateM σ) β} {items : List α}
    (each : ∀ found, ∀ item ∈ items, FailsWith (step found item) allowed) (start : β) :
    FailsWith (items.foldlM step start) allowed := by
  induction items generalizing start with
  | nil =>
    rw [List.foldlM_nil]
    exact FailsWith.pure start
  | cons item rest ih =>
    rw [List.foldlM_cons]
    have later : ∀ found, ∀ item ∈ rest, FailsWith (step found item) allowed :=
      fun found item member => each found item (by simp [member])
    exact (each start item (by simp)).andThen fun found => ih later found

/-- Steps over a list fail as one of them does. -/
theorem mapM {step : α → ExceptT ε (StateM σ) β} {items : List α}
    (each : ∀ item ∈ items, FailsWith (step item) allowed) :
    FailsWith (items.mapM step) allowed := by
  induction items with
  | nil =>
    rw [List.mapM_nil]
    exact FailsWith.pure []
  | cons item rest ih =>
    rw [List.mapM_cons]
    have later : FailsWith (rest.mapM step) allowed :=
      ih fun item member => each item (by simp [member])
    exact (each item (by simp)).andThen fun value =>
      later.andThen fun values => FailsWith.pure (value :: values)

end FailsWith

/-- The first item of a list that does not fit is blamed for a failure. -/
def BlamesFirst (fits : α → Prop) (blames : α → ε → Prop) (items : List α) (cause : ε) : Prop :=
  ∃ before item after, items = before ++ item :: after ∧ (∀ other ∈ before, fits other) ∧
    blames item cause

namespace BlamesFirst

variable {fits : α → Prop} {blames : α → ε → Prop} {items : List α} {cause : ε}

/-- Items that fit do not change which item is the first that does not. -/
theorem after (blamed : BlamesFirst fits blames items cause) {earlier : List α}
    (fit : ∀ item ∈ earlier, fits item) : BlamesFirst fits blames (earlier ++ items) cause := by
  obtain ⟨before, culprit, rest, rfl, others, guilty⟩ := blamed
  exact ⟨earlier ++ before, culprit, rest, (List.append_assoc ..).symm,
    List.forall_mem_append.mpr ⟨fit, others⟩, guilty⟩

/-- Items that follow do not change which item is the first that does not fit. -/
theorem before (blamed : BlamesFirst fits blames items cause) (later : List α) :
    BlamesFirst fits blames (items ++ later) cause := by
  obtain ⟨earlier, culprit, rest, rfl, others, guilty⟩ := blamed
  exact ⟨earlier, culprit, rest ++ later, by rw [List.append_assoc, List.cons_append], others,
    guilty⟩

end BlamesFirst

/-- Whatever succeeds was given what fits, and whatever fails says what does not. -/
structure Judges (action : ExceptT ε (StateM σ) α) (fits : Prop) (blames : ε → Prop) : Prop where
  /-- What succeeds fits. -/
  passes : Ensures action fun _ => fits
  /-- What fails is to blame. -/
  fails : FailsWith action blames

namespace Judges

variable {fits : Prop} {blames : ε → Prop}

/-- A result for what fits. -/
theorem pure (value : α) (fact : fits) :
    Judges (Pure.pure value : ExceptT ε (StateM σ) α) fits blames :=
  ⟨Ensures.pure fact, FailsWith.pure value⟩

/-- A failure for what does not fit. -/
theorem throw {cause : ε} (fact : blames cause) :
    Judges (MonadExcept.throw cause : ExceptT ε (StateM σ) α) fits blames :=
  ⟨Ensures.throw, FailsWith.throw fact⟩

/-- A judgement that says less. -/
theorem weaken {action : ExceptT ε (StateM σ) α} (judges : Judges action fits blames)
    {weaker : Prop} {milder : ε → Prop} (passes : fits → weaker)
    (fails : ∀ cause, blames cause → milder cause) : Judges action weaker milder :=
  ⟨judges.passes.weaken fun _ => passes, fun state cause after ran =>
    fails cause (judges.fails state cause after ran)⟩

/-- The second step judges on, whatever the first one gives. -/
theorem bind {action : ExceptT ε (StateM σ) α} {next : α → ExceptT ε (StateM σ) β} {rest : Prop}
    (first : Judges action fits blames) (second : ∀ value, fits → Judges (next value) rest blames) :
    Judges (action >>= next) (fits ∧ rest) blames :=
  ⟨first.passes.bind fun value known =>
      (second value known).passes.weaken fun _ later => ⟨known, later⟩,
    first.fails.bind first.passes fun value known => (second value known).fails⟩

/-- The second step judges what the first one gives, where the first fails as it may. -/
theorem after {action : ExceptT ε (StateM σ) α} {next : α → ExceptT ε (StateM σ) β}
    {holds : α → Prop} (given : Ensures action holds) (fails : FailsWith action blames)
    (second : ∀ value, holds value → Judges (next value) fits blames) :
    Judges (action >>= next) fits blames :=
  ⟨given.bind fun value known => (second value known).passes,
    fails.bind given fun value known => (second value known).fails⟩

/-- Where nothing that fits is to blame, a step succeeds exactly for what fits. -/
theorem exists_ok_iff {action : ExceptT ε (StateM σ) α} (judges : Judges action fits blames)
    (unfit : ∀ cause, blames cause → ¬ fits) (state : σ) :
    (∃ value, (perform action state).1 = .ok value) ↔ fits := by
  rcases ran : perform action state with ⟨cause | value, after⟩
  · have refused := unfit cause (judges.fails state cause after ran)
    simp [refused]
  · have fit := judges.passes state value after ran
    simp [fit]

/-- A function of the result judges alike. -/
theorem map {action : ExceptT ε (StateM σ) α} (judges : Judges action fits blames)
    (change : α → β) : Judges (change <$> action) fits blames :=
  ⟨Ensures.map judges.passes, judges.fails.map change⟩

/-- A judgement whose failures are reported in another form. -/
theorem rethrow {action : ExceptT ε (StateM σ) α} (judges : Judges action fits blames)
    (report : ε → ε) :
    Judges (MonadExcept.tryCatch action fun cause => MonadExcept.throw (report cause)) fits
      fun cause => ∃ source, cause = report source ∧ blames source :=
  ⟨Ensures.tryCatch judges.passes fun _ => Ensures.throw, judges.fails.rethrow report⟩

/-- Steps over a list blame the first item that does not fit. -/
theorem mapM {step : α → ExceptT ε (StateM σ) β} {fits : α → Prop} {blames : α → ε → Prop}
    {items : List α} (each : ∀ item ∈ items, Judges (step item) (fits item) (blames item)) :
    Judges (items.mapM step) (∀ item ∈ items, fits item) (BlamesFirst fits blames items) := by
  induction items with
  | nil =>
    rw [List.mapM_nil]
    exact Judges.pure [] (by simp)
  | cons item rest ih =>
    have others := ih fun other member => each other (by simp [member])
    rw [List.mapM_cons]
    have first : Judges (step item) (fits item) (BlamesFirst fits blames (item :: rest)) :=
      (each item (by simp)).weaken id fun cause blamed => ⟨[], item, rest, rfl, by simp, blamed⟩
    refine (first.bind fun value fit => ?_).weaken
      (fun both => List.forall_mem_cons.mpr both) fun _ => id
    refine ((others.weaken id fun cause blamed =>
      blamed.after (List.forall_mem_singleton.mpr fit)).bind fun values _ =>
      Judges.pure (value :: values) trivial).weaken And.left fun _ => id

/-- A walk over a list blames the first item that does not fit. -/
theorem foldlM {step : β → α → ExceptT ε (StateM σ) β} {fits : α → Prop}
    {blames : α → ε → Prop} {items : List α}
    (each : ∀ found, ∀ item ∈ items, Judges (step found item) (fits item) (blames item))
    (start : β) :
    Judges (items.foldlM step start) (∀ item ∈ items, fits item)
      (BlamesFirst fits blames items) := by
  induction items generalizing start with
  | nil =>
    rw [List.foldlM_nil]
    exact Judges.pure start (by simp)
  | cons item rest ih =>
    rw [List.foldlM_cons]
    have first : Judges (step start item) (fits item) (BlamesFirst fits blames (item :: rest)) :=
      (each start item (by simp)).weaken id fun cause blamed =>
        ⟨[], item, rest, rfl, by simp, blamed⟩
    refine (first.bind fun found fit => ?_).weaken
      (fun both => List.forall_mem_cons.mpr both) fun _ => id
    exact (ih (fun found other member => each found other (by simp [member])) found).weaken id
      fun cause blamed => blamed.after (List.forall_mem_singleton.mpr fit)

end Judges

/-- A step succeeds from every state and leaves the state as it was. -/
def Yields (action : ExceptT ε (StateM σ) α) (value : α) : Prop :=
  ∀ state, perform action state = (.ok value, state)

namespace Yields

/-- A result. -/
theorem pure (value : α) : Yields (Pure.pure value : ExceptT ε (StateM σ) α) value :=
  fun _ => rfl

/-- Two steps in order. -/
theorem bind {action : ExceptT ε (StateM σ) α} {next : α → ExceptT ε (StateM σ) β}
    {value : α} {result : β} (first : Yields action value) (second : Yields (next value) result) :
    Yields (action >>= next) result := by
  intro state
  rw [perform_bind_ok (first state), second state]

/-- A function of the result. -/
theorem map {action : ExceptT ε (StateM σ) α} {value : α} (fact : Yields action value)
    (change : α → β) : Yields (change <$> action) (change value) := by
  rw [map_eq_pure_bind]
  exact fact.bind (Yields.pure (change value))

/-- What a step yields is all that it gives. -/
theorem ensures {action : ExceptT ε (StateM σ) α} {value : α} (fact : Yields action value)
    {holds : α → Prop} (known : holds value) : Ensures action holds := by
  intro state result after ran
  rw [fact state] at ran
  obtain ⟨same, -⟩ := Prod.mk.inj ran
  exact Except.ok.inj same ▸ known

/-- What a step gives holds of what it yields. -/
theorem holds {action : ExceptT ε (StateM σ) α} {value : α} (fact : Yields action value)
    {goal : α → Prop} (always : Ensures action goal) (state : σ) : goal value :=
  always state value state (fact state)

/-- A handler has nothing to do where the step succeeds. -/
theorem tryCatch {action : ExceptT ε (StateM σ) α} {value : α} (fact : Yields action value)
    (handle : ε → ExceptT ε (StateM σ) α) :
    Yields (MonadExcept.tryCatch action handle) value := by
  intro state
  refine (perform_tryCatch action handle state).trans ?_
  rw [fact state]

/-- A walk over a list succeeds where each of its steps does. -/
theorem mapM {step : α → ExceptT ε (StateM σ) β} {items : List α}
    (each : ∀ item ∈ items, ∃ result, Yields (step item) result) :
    ∃ results, Yields (items.mapM step) results := by
  induction items with
  | nil =>
    rw [List.mapM_nil]
    exact ⟨[], Yields.pure []⟩
  | cons item rest ih =>
    obtain ⟨first, here⟩ := each item (by simp)
    obtain ⟨others, later⟩ := ih fun other member => each other (by simp [member])
    rw [List.mapM_cons]
    exact ⟨first :: others, here.bind (later.bind (Yields.pure (first :: others)))⟩

/-- A walk over a list succeeds where each of its steps does from whatever was found. -/
theorem foldlM {step : β → α → ExceptT ε (StateM σ) β} {items : List α}
    (each : ∀ found, ∀ item ∈ items, ∃ result, Yields (step found item) result) (start : β) :
    ∃ result, Yields (items.foldlM step start) result := by
  induction items generalizing start with
  | nil =>
    rw [List.foldlM_nil]
    exact ⟨start, Yields.pure start⟩
  | cons item rest ih =>
    obtain ⟨next, here⟩ := each start item (by simp)
    obtain ⟨last, later⟩ := ih (fun found other member => each found other (by simp [member])) next
    rw [List.foldlM_cons]
    exact ⟨last, here.bind later⟩

/-- A walk over a list gives the results of its steps, where these are known. -/
theorem mapM_map {step : α → ExceptT ε (StateM σ) β} {result : α → β} {items : List α}
    (each : ∀ item ∈ items, Yields (step item) (result item)) :
    Yields (items.mapM step) (items.map result) := by
  induction items with
  | nil => exact Yields.pure []
  | cons item rest ih =>
    obtain ⟨here, later⟩ := List.forall_mem_cons.mp each
    rw [List.mapM_cons]
    exact here.bind ((ih later).bind (Yields.pure (result item :: rest.map result)))

/-- A walk over a list ends where its steps lead, where it is known where each of them does. -/
theorem foldlM_foldl {step : β → α → ExceptT ε (StateM σ) β} {result : β → α → β}
    {items : List α} (each : ∀ found, ∀ item ∈ items, Yields (step found item) (result found item))
    (start : β) : Yields (items.foldlM step start) (items.foldl result start) := by
  induction items generalizing start with
  | nil => exact Yields.pure start
  | cons item rest ih =>
    rw [List.foldlM_cons, List.foldl_cons]
    refine (each start item (by simp)).bind (ih (fun found other member => ?_) _)
    exact each found other (by simp [member])

end Yields

/-- A step that ends in one way from some state ends so from every state, and leaves it as it
was. -/
def Steady (action : ExceptT ε (StateM σ) α) : Prop :=
  ∀ state outcome after, perform action state = (outcome, after) →
    ∀ other, perform action other = (outcome, other)

namespace Steady

/-- A result. -/
theorem pure (value : α) : Steady (Pure.pure value : ExceptT ε (StateM σ) α) := by
  intro state outcome after ran other
  obtain ⟨rfl, -⟩ := Prod.mk.inj ran
  rfl

/-- A failure. -/
theorem throw (cause : ε) : Steady (MonadExcept.throw cause : ExceptT ε (StateM σ) α) := by
  intro state outcome after ran other
  obtain ⟨rfl, -⟩ := Prod.mk.inj ran
  rfl

/-- Whatever succeeds is what the step yields. -/
theorem ensures {action : ExceptT ε (StateM σ) α} (steady : Steady action) :
    Ensures action (Yields action) :=
  fun state value after ran => steady state (.ok value) after ran

/-- Two steps in order, where the second is steady on what the first gives. -/
theorem bind {action : ExceptT ε (StateM σ) α} {next : α → ExceptT ε (StateM σ) β}
    {holds : α → Prop} (first : Steady action) (given : Ensures action holds)
    (second : ∀ value, holds value → Steady (next value)) : Steady (action >>= next) := by
  intro state outcome after ran other
  rcases middle : perform action state with ⟨cause | value, between⟩
  · rw [perform_bind_error middle] at ran
    obtain ⟨rfl, -⟩ := Prod.mk.inj ran
    exact perform_bind_error (first state _ _ middle other) next
  · rw [perform_bind_ok middle] at ran
    rw [perform_bind_ok (first state _ _ middle other)]
    exact second value (given state value between middle) between outcome after ran other

/-- Two steps in order, the second steady on whatever it is given. -/
theorem andThen {action : ExceptT ε (StateM σ) α} {next : α → ExceptT ε (StateM σ) β}
    (first : Steady action) (second : ∀ value, Steady (next value)) : Steady (action >>= next) :=
  first.bind (Ensures.trivial action) fun value _ => second value

/-- A function of the result. -/
theorem map {action : ExceptT ε (StateM σ) α} (steady : Steady action) (change : α → β) :
    Steady (change <$> action) := by
  rw [map_eq_pure_bind]
  exact steady.andThen fun value => Steady.pure (change value)

/-- A step with a handler, both steady. -/
theorem tryCatch {action : ExceptT ε (StateM σ) α} {handle : ε → ExceptT ε (StateM σ) α}
    (steady : Steady action) (handled : ∀ cause, Steady (handle cause)) :
    Steady (MonadExcept.tryCatch action handle) := by
  intro state outcome after ran other
  have ran := (perform_tryCatch action handle state).symm.trans ran
  refine (perform_tryCatch action handle other).trans ?_
  rcases middle : perform action state with ⟨cause | value, between⟩
  · rw [middle] at ran
    rw [steady state _ _ middle other]
    exact handled cause between outcome after ran other
  · rw [middle] at ran
    obtain ⟨rfl, -⟩ := Prod.mk.inj ran
    rw [steady state _ _ middle other]

/-- Steps over a list, each of them steady. -/
theorem mapM {step : α → ExceptT ε (StateM σ) β} {items : List α}
    (each : ∀ item ∈ items, Steady (step item)) : Steady (items.mapM step) := by
  induction items with
  | nil =>
    rw [List.mapM_nil]
    exact Steady.pure []
  | cons item rest ih =>
    have later : Steady (rest.mapM step) := ih fun other member => each other (by simp [member])
    rw [List.mapM_cons]
    exact (each item (by simp)).andThen fun value =>
      later.andThen fun values => Steady.pure (value :: values)

/-- A walk over a list whose steps are steady from whatever was found. -/
theorem foldlM {step : β → α → ExceptT ε (StateM σ) β} {items : List α}
    (each : ∀ found, ∀ item ∈ items, Steady (step found item)) (start : β) :
    Steady (items.foldlM step start) := by
  induction items generalizing start with
  | nil =>
    rw [List.foldlM_nil]
    exact Steady.pure start
  | cons item rest ih =>
    have later : ∀ found, ∀ other ∈ rest, Steady (step found other) :=
      fun found other member => each found other (by simp [member])
    rw [List.foldlM_cons]
    exact (each start item (by simp)).andThen (ih later)

end Steady

namespace SessionM

/-- Lift the failure of a computation. -/
def ofExcept {α : Type} : Except MappingError α → SessionM α
  | .ok value => pure value
  | .error cause => throw cause

/-- The outcome of a step, which itself does not fail. -/
def attempt {α : Type} (action : SessionM α) : SessionM (Except MappingError α) := fun session =>
  let (outcome, after) := perform action session
  (.ok outcome, after)

/-- A lifted computation leaves the session alone. -/
@[simp] theorem perform_ofExcept {α : Type} (outcome : Except MappingError α)
    (session : Session) : perform (ofExcept outcome) session = (outcome, session) := by
  cases outcome <;> rfl

/-- A lifted computation is steady. -/
theorem steady_ofExcept {α : Type} (outcome : Except MappingError α) :
    Steady (ofExcept outcome) := by
  cases outcome with
  | ok value => exact Steady.pure value
  | error cause => exact Steady.throw cause

/-- The outcome of a step is a result, whichever it is. -/
@[simp] theorem perform_attempt {α : Type} (action : SessionM α) (session : Session) :
    perform (attempt action) session =
      (.ok (perform action session).1, (perform action session).2) := rfl

/-- A step that succeeds has an outcome that is a success. -/
theorem yields_attempt {α : Type} {action : SessionM α} {value : α}
    (fact : Yields action value) : Yields (attempt action) (.ok value) := by
  intro session
  rw [perform_attempt, fact session]

/-- A success of a lifted computation is its result. -/
theorem ensures_ofExcept {α : Type} (outcome : Except MappingError α) :
    Ensures (ofExcept outcome) fun value => outcome = .ok value := by
  intro session value after ran
  rw [perform_ofExcept] at ran
  exact congrArg Prod.fst ran

/-- An outcome that is a success has the property of the step. -/
theorem ensures_attempt {α : Type} {action : SessionM α} {holds : α → Prop}
    (fact : Ensures action holds) :
    Ensures (attempt action) fun outcome => ∀ value, outcome = .ok value → holds value := by
  intro session outcome after ran value succeeded
  rw [perform_attempt] at ran
  obtain ⟨same, -⟩ := Prod.mk.inj ran
  exact fact session value _ (Prod.ext ((Except.ok.inj same).trans succeeded) rfl)

/-- A lifted computation fails as the computation does. -/
theorem failsWith_ofExcept {α : Type} {outcome : Except MappingError α}
    {allowed : MappingError → Prop} (fact : ∀ cause, outcome = .error cause → allowed cause) :
    FailsWith (ofExcept outcome) allowed := by
  intro session cause after ran
  rw [perform_ofExcept] at ran
  exact fact cause (congrArg Prod.fst ran)

/-- The outcome of a step is no failure, whichever it is. -/
theorem failsWith_attempt {α : Type} (action : SessionM α) (allowed : MappingError → Prop) :
    FailsWith (attempt action) allowed := by
  intro session cause after ran
  rw [perform_attempt] at ran
  cases ran

/-- An outcome that is a failure has the property of the failures of the step. -/
theorem ensures_attempt_error {α : Type} {action : SessionM α} {allowed : MappingError → Prop}
    (fact : FailsWith action allowed) :
    Ensures (attempt action) fun outcome => ∀ cause, outcome = .error cause → allowed cause := by
  intro session outcome after ran cause failed
  rw [perform_attempt] at ran
  obtain ⟨same, -⟩ := Prod.mk.inj ran
  exact fact session cause _ (Prod.ext ((Except.ok.inj same).trans failed) rfl)

end SessionM

end EntityMapping
