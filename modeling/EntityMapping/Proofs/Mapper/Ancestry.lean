import Mathlib.Data.Fintype.Card
import Mathlib.Data.Fintype.EquivFin
import Mathlib.Data.Set.Finite.List
import EntityMapping.Mapper.Path
import EntityMapping.Proofs.Decoding.Kind
import EntityMapping.Proofs.Mapper.Walks
/-!
# Ancestors of models

Subtypes are found by following parents, and parents are followed by name. A model extends
another model as it was declared, while the walk asks for what is registered under the name of
that model; a model that took over the name of one of its ancestors leads the walk in a circle.
So the walks for every name end exactly where no registered model is its own ancestor, and
assembling a mapper does not see to that. Where they end, the subtypes of a name are the models
whose parents lead to it, and every path is resolved.
-/

namespace EntityMapping.Mapper

/-- A model is below a kind when its parent is that kind or extends it. -/
def Below (mapper : Mapper) (model : EntityModel) (kind : String) : Prop :=
  ∃ parent, model.parent = some parent ∧ mapper.Extends parent kind

/-- No registered model is its own ancestor. -/
def Acyclic (mapper : Mapper) : Prop :=
  ∀ model ∈ mapper.models, ¬ mapper.Below model model.name

/-- The names met by following parents from a name on, where that comes to an end. -/
inductive Climbs (mapper : Mapper) : Option String → List String → Prop where
  /-- There is no parent. -/
  | done : Climbs mapper none []
  /-- A name is met, and then its parents are. -/
  | next {name : String} {chain : List String}
    (rest : Climbs mapper ((mapper.model? name).bind EntityModel.parent) chain) :
    Climbs mapper (some name) (name :: chain)

/-- The walk for a name ends from every registered model. -/
def WalksEnd (mapper : Mapper) (name : String) : Prop :=
  ∀ model ∈ mapper.models, (mapper.meets name model.parent).isSome = true

variable {mapper : Mapper} {kind name sought ancestor : String} {start : Option String}
  {chain : List String}

/-- What extends a kind extends all that the kind extends. -/
theorem Extends.trans (lower : mapper.Extends kind name) (upper : mapper.Extends name ancestor) :
    mapper.Extends kind ancestor := by
  induction lower with
  | refl => exact upper
  | parent found declared _ ih => exact .parent found declared (ih upper)

/-- A walk that passes the name looked for meets it. -/
theorem Extends.meets (passes : mapper.Extends name sought) :
    mapper.meets sought (some name) = some true := by
  induction passes with
  | refl => rw [meets_some, if_pos rfl]
  | parent found declared _ ih =>
    rw [meets_some, found, Option.bind_some, declared, ih, ite_self]

/-- A walk with an end meets the names on it. -/
theorem Climbs.meets (climbs : mapper.Climbs start chain) (sought : String) :
    mapper.meets sought start = some (decide (sought ∈ chain)) := by
  induction climbs with
  | done => rw [meets_none, decide_eq_false (by simp)]
  | @next name chain _ ih =>
    rw [meets_some, ih]
    by_cases same : name = sought
    · simp [same]
    · simp [same, Ne.symm same]

/-- An answer is right: a name that is met lies on the way, and where none is met the walk has
come to its end without it. -/
theorem of_climb {answer : Bool} {steps : Nat}
    (walked : mapper.climb sought steps start = some answer) :
    if answer then ∃ name, start = some name ∧ mapper.Extends name sought
    else ∃ chain, mapper.Climbs start chain ∧ sought ∉ chain := by
  fun_induction mapper.climb sought steps start with
  | case1 =>
    obtain rfl := Option.some.inj walked
    exact ⟨[], .done, List.not_mem_nil⟩
  | case2 => cases walked
  | case3 steps =>
    obtain rfl := Option.some.inj walked
    exact ⟨sought, rfl, .refl sought⟩
  | case4 steps name apart ih =>
    have later := ih walked
    cases answer with
    | true =>
      obtain ⟨parent, up, above⟩ := later
      obtain ⟨model, found, declared⟩ := Option.bind_eq_some_iff.mp up
      exact ⟨name, rfl, .parent found declared above⟩
    | false =>
      obtain ⟨chain, climbs, missed⟩ := later
      exact ⟨name :: chain, .next climbs, by simp [Ne.symm apart, missed]⟩

/-- A walk ends where it passes the name looked for, or has an end of its own. -/
theorem meets_isSome_iff : (mapper.meets sought start).isSome = true ↔
    (∃ name, start = some name ∧ mapper.Extends name sought) ∨
      ∃ chain, mapper.Climbs start chain := by
  constructor
  · intro ends
    obtain ⟨answer, walked⟩ := Option.isSome_iff_exists.mp ends
    have right := of_climb walked
    cases answer with
    | true => exact .inl right
    | false => exact .inr (right.imp fun chain known => known.1)
  · rintro (⟨name, rfl, passes⟩ | ⟨chain, climbs⟩)
    · rw [passes.meets]
      rfl
    · rw [climbs.meets]
      rfl

/-- A model is a subtype of the kinds it is below. -/
theorem isSubtype_iff {model : EntityModel} :
    mapper.isSubtype model name = some true ↔ mapper.Below model name := by
  constructor
  · intro walked
    exact of_climb walked
  · rintro ⟨parent, declared, passes⟩
    rw [isSubtype, declared, passes.meets]

/-- There is one walk from a name. -/
theorem Climbs.unique {other : List String} (climbs : mapper.Climbs start chain)
    (again : mapper.Climbs start other) : chain = other := by
  induction climbs generalizing other with
  | done =>
    cases again
    rfl
  | next _ ih =>
    cases again with
    | next rest => rw [ih rest]

/-- A walk with an end goes on from every name on it, and is no longer there. -/
theorem Climbs.above (climbs : mapper.Climbs (some name) chain)
    (passes : mapper.Extends name ancestor) :
    ∃ rest, mapper.Climbs (some ancestor) rest ∧ rest.length ≤ chain.length := by
  induction passes generalizing chain with
  | refl => exact ⟨chain, climbs, Nat.le_refl _⟩
  | parent found declared _ ih =>
    cases climbs with
    | next rest =>
      rw [found, Option.bind_some, declared] at rest
      obtain ⟨last, still, shorter⟩ := ih rest
      exact ⟨last, still, Nat.le_succ_of_le shorter⟩

/-- A registered model whose walk has an end is not its own ancestor. -/
theorem Registered.not_below (registered : mapper.Registered) {model : EntityModel}
    (member : model ∈ mapper.models) (climbs : mapper.Climbs model.parent chain) :
    ¬ mapper.Below model model.name := by
  rintro ⟨parent, declared, passes⟩
  obtain ⟨rest, again, shorter⟩ := (declared ▸ climbs).above passes
  cases again with
  | next more =>
    rw [registered.model?_of_mem member, Option.bind_some] at more
    rw [climbs.unique more, List.length_cons] at shorter
    omega

/-- The registered models that a registered model is below. -/
def Above (mapper : Mapper) (upper lower : { model // model ∈ mapper.models }) : Prop :=
  mapper.Below lower.1 upper.1.name

/-- What is below a model is below all that the model is below. -/
theorem Registered.above_trans (registered : mapper.Registered)
    {upper middle lower : { model // model ∈ mapper.models }}
    (high : mapper.Above upper middle) (low : mapper.Above middle lower) :
    mapper.Above upper lower := by
  obtain ⟨parent, declared, passes⟩ := low
  obtain ⟨grandparent, extended, further⟩ := high
  have up : mapper.Extends middle.1.name upper.1.name :=
    .parent (registered.model?_of_mem middle.2) extended further
  exact ⟨parent, declared, passes.trans up⟩

/-- Where no model is its own ancestor, being above is well-founded: the registered models are
finitely many. -/
theorem Registered.above_wellFounded (registered : mapper.Registered)
    (acyclic : mapper.Acyclic) : WellFounded mapper.Above := by
  have : Finite { model // model ∈ mapper.models } := (List.finite_toSet mapper.models).to_subtype
  have : Std.Irrefl mapper.Above := ⟨fun one => acyclic one.1 one.2⟩
  have : IsTrans _ mapper.Above := ⟨fun _ _ _ => registered.above_trans⟩
  exact Finite.wellFounded_of_trans_of_irrefl mapper.Above

/-- Where the walk from the registered parent of a model has an end, so has the walk from the
model. -/
theorem climbs_of_parent {model : EntityModel}
    (ends : ∀ upper ∈ mapper.models, model.parent = some upper.name →
      ∃ chain, mapper.Climbs upper.parent chain) : ∃ chain, mapper.Climbs model.parent chain := by
  cases declared : model.parent with
  | none => exact ⟨[], .done⟩
  | some parent =>
    cases found : mapper.model? parent with
    | none => exact ⟨[parent], .next (by rw [found]; exact .done)⟩
    | some upper =>
      obtain ⟨among, rfl⟩ := model?_some found
      obtain ⟨chain, climbs⟩ := ends upper among declared
      exact ⟨upper.name :: chain, .next (by rw [found]; exact climbs)⟩

/-- Where no model is its own ancestor every walk has an end. -/
theorem Registered.climbs (registered : mapper.Registered) (acyclic : mapper.Acyclic)
    {model : EntityModel} (member : model ∈ mapper.models) :
    ∃ chain, mapper.Climbs model.parent chain := by
  have descends : ∀ one : { model // model ∈ mapper.models },
      ∃ chain, mapper.Climbs one.1.parent chain := by
    intro one
    induction one using (registered.above_wellFounded acyclic).induction with
    | _ lower ih =>
      exact climbs_of_parent fun upper among declared =>
        ih ⟨upper, among⟩ ⟨upper.name, declared, .refl upper.name⟩
  exact descends ⟨model, member⟩

/-- What a model is below is declared as a parent. -/
theorem Below.declared {model : EntityModel} (below : mapper.Below model name)
    (member : model ∈ mapper.models) : ∃ lower ∈ mapper.models, lower.parent = some name := by
  obtain ⟨parent, extended, passes⟩ := below
  induction passes generalizing model with
  | refl => exact ⟨model, member, extended⟩
  | parent found declared _ ih => exact ih (model?_some found).1 declared

/-- There is a name that no walk passes. -/
theorem exists_unpassed (mapper : Mapper) :
    ∃ name, ∀ model ∈ mapper.models, ¬ mapper.Below model name := by
  have : Infinite String := by
    refine Infinite.of_injective (fun count => String.ofList (List.replicate count 'a')) ?_
    intro left right same
    simpa using congrArg (fun text : String => text.toList.length) same
  obtain ⟨name, fresh⟩ :=
    Infinite.exists_notMem_finset (mapper.models.filterMap EntityModel.parent).toFinset
  refine ⟨name, fun model member below => fresh ?_⟩
  obtain ⟨lower, among, declared⟩ := below.declared member
  exact List.mem_toFinset.mpr (List.mem_filterMap.mpr ⟨lower, among, declared⟩)

/-- A walk that comes back to where it began has no end, unless it meets the name looked for. -/
theorem Registered.meets_eq_none (registered : mapper.Registered) {model : EntityModel}
    (member : model ∈ mapper.models) (circle : mapper.Below model model.name)
    (missed : ¬ mapper.Below model name) : mapper.meets name model.parent = none := by
  rw [← Option.not_isSome_iff_eq_none]
  intro ends
  rcases meets_isSome_iff.mp ends with passes | ⟨chain, climbs⟩
  · exact missed passes
  · exact registered.not_below member climbs circle

/-- The walks for every name end exactly where no registered model is its own ancestor. -/
theorem Registered.acyclic_iff (registered : mapper.Registered) :
    mapper.Acyclic ↔ ∀ name, mapper.WalksEnd name := by
  constructor
  · intro acyclic name model member
    exact meets_isSome_iff.mpr (.inr (registered.climbs acyclic member))
  · intro ends model member circle
    obtain ⟨name, unpassed⟩ := mapper.exists_unpassed
    have ended := ends name model member
    rw [registered.meets_eq_none member circle (unpassed model member)] at ended
    cases ended

/-- No model is its own ancestor where every model comes after the one it extends. -/
theorem Registered.acyclic_of_ordered (registered : mapper.Registered)
    (ordered : mapper.models.Pairwise fun earlier later => earlier.parent ≠ some later.name)
    (proper : ∀ model ∈ mapper.models, model.parent ≠ some model.name) : mapper.Acyclic := by
  have climbs : ∀ place (inside : place < mapper.models.length),
      ∃ chain, mapper.Climbs (mapper.models[place]).parent chain := by
    intro place
    induction place using Nat.strong_induction_on with
    | _ place ih =>
      intro inside
      refine climbs_of_parent fun upper among declared => ?_
      obtain ⟨above, known, rfl⟩ := List.getElem_of_mem among
      -- The parent stands neither at this place nor behind it.
      have earlier : above < place := by
        rcases Nat.lt_trichotomy above place with before | here | behind
        · exact before
        · subst here
          exact absurd declared (proper _ (List.getElem_mem inside))
        · have apart := List.pairwise_iff_getElem.mp ordered place above inside known behind
          exact absurd declared apart
      exact ih above earlier known
  intro model member
  obtain ⟨place, inside, rfl⟩ := List.getElem_of_mem member
  obtain ⟨chain, climbs⟩ := climbs place inside
  exact registered.not_below member climbs

/-- There is no answer about models if there is none about one of them. -/
theorem subtypesAmong_isSome_iff {models : List EntityModel} :
    (mapper.subtypesAmong name models).isSome = true ↔
      ∀ model ∈ models, (mapper.isSubtype model name).isSome = true := by
  induction models with
  | nil => simp [subtypesAmong]
  | cons model rest ih =>
    rw [List.forall_mem_cons, ← ih, subtypesAmong]
    cases mapper.isSubtype model name with
    | none => simp
    | some below => cases mapper.subtypesAmong name rest <;> simp

/-- The subtypes among models are those that are below the name. -/
theorem subtypesAmong_some {models found : List EntityModel}
    (answered : mapper.subtypesAmong name models = some found) :
    found = models.filter fun model => decide (mapper.isSubtype model name = some true) := by
  induction models generalizing found with
  | nil => exact (Option.some.inj answered).symm
  | cons model rest ih =>
    obtain ⟨below, walked, answered⟩ := Option.bind_eq_some_iff.mp answered
    obtain ⟨others, listed, answered⟩ := Option.bind_eq_some_iff.mp answered
    obtain rfl := Option.some.inj answered
    obtain rfl := ih listed
    rw [List.filter_cons, walked]
    cases below <;> rfl

/-- Models of different names that are sorted by name stand in the order of their names. -/
theorem sorted_names {models : List EntityModel} (apart : (models.map EntityModel.name).Nodup) :
    ((models.mergeSort fun left right => decide (¬ right.name < left.name)).map
      EntityModel.name).Pairwise (· < ·) := by
  have upward : ∀ left right : EntityModel,
      decide (¬ right.name < left.name) = true ↔ left.name ≤ right.name :=
    fun left right => by rw [decide_eq_true_iff, String.not_lt]
  have ordered : (models.mergeSort fun left right => decide (¬ right.name < left.name)).Pairwise
      fun left right => left.name ≤ right.name := by
    refine (List.pairwise_mergeSort ?_ ?_ _).imp fun {left right} => (upward left right).mp
    · intro first second third low high
      rw [upward] at low high ⊢
      exact String.le_trans low high
    · intro left right
      rw [Bool.or_eq_true, upward, upward]
      exact String.le_total left.name right.name
  have permuted := List.mergeSort_perm models fun left right => decide (¬ right.name < left.name)
  have different := (permuted.map EntityModel.name).nodup_iff.mpr apart
  refine (List.Pairwise.and (List.pairwise_map.mpr ordered) different).imp ?_
  rintro left right ⟨below, different⟩
  exact String.not_le.mp fun above => different (String.le_antisymm below above)

/-- There are subtypes of a name where the walks for it end. -/
theorem subtypes?_isSome_iff : (mapper.subtypes? name).isSome = true ↔ mapper.WalksEnd name := by
  have among : (mapper.subtypesAmong name mapper.models).isSome = true ↔ mapper.WalksEnd name :=
    subtypesAmong_isSome_iff
  rw [← among, subtypes?]
  cases mapper.subtypesAmong name mapper.models <;> simp

/-- Subtypes are the registered models below a name, in the order of their names and each
once. -/
theorem Registered.subtypes?_eq (registered : mapper.Registered) {found : List EntityModel}
    (answered : mapper.subtypes? name = some found) :
    (found.map EntityModel.name).Pairwise (· < ·) ∧
      ∀ model, model ∈ found ↔ model ∈ mapper.models ∧ mapper.Below model name := by
  obtain ⟨among, listed, sorted⟩ := Option.bind_eq_some_iff.mp answered
  obtain rfl := subtypesAmong_some listed
  obtain rfl := Option.some.inj sorted
  constructor
  · exact sorted_names (registered.namedApart.sublist (List.filter_sublist.map EntityModel.name))
  · intro model
    rw [(List.mergeSort_perm _ _).mem_iff, List.mem_filter, decide_eq_true_iff, isSubtype_iff]

/-- Where the walks for every name end, so does the search for a field. -/
theorem findField_isSome (ends : ∀ name, mapper.WalksEnd name) (entity segment : String) :
    (mapper.findField entity segment).isSome = true := by
  unfold findField
  split
  · rfl
  · split
    · rfl
    · obtain ⟨subtypes, found⟩ := Option.isSome_iff_exists.mp (subtypes?_isSome_iff.mpr (ends entity))
      rw [found]
      rfl

/-- Where the walks for every name end, resolving does. -/
theorem resolveFrom_isSome (ends : ∀ name, mapper.WalksEnd name) (scope : PathScope)
    (type : Option FieldType) (segments : List String) :
    (mapper.resolveFrom scope type segments).isSome = true := by
  fun_induction mapper.resolveFrom scope type segments with
  | case1 | case5 | case8 => rfl
  | case2 _ _ _ _ ih | case3 _ _ _ _ _ _ ih | case6 _ _ _ _ _ _ _ _ ih | case7 _ _ _ _ _ ih =>
    rw [Option.isSome_map]
    exact ih
  | case4 _ segment _ _ name endless =>
    have found := findField_isSome ends name segment
    rw [endless] at found
    cases found

/-- The walks by which an assembled mapper finds subtypes, and by them the fields of subtypes on
a path, all end exactly where no registered model is its own ancestor, which is exactly where
following parents from a registered model comes to an end. Then every path is resolved. There are
subtypes of a name exactly where the walks for it end: they are the registered models whose
parents lead to it, in the order of their names and each once. -/
theorem subtypes_exact {plan : MapperPlan} (built : plan.assemble = .ok mapper) :
    (mapper.Acyclic ↔ ∀ name, mapper.WalksEnd name) ∧
      (mapper.Acyclic ↔ ∀ model ∈ mapper.models, ∃ chain, mapper.Climbs model.parent chain) ∧
      (mapper.Acyclic → ∀ entity path, (mapper.resolvePath? entity path).isSome = true) ∧
      ∀ name, ((mapper.subtypes? name).isSome = true ↔ mapper.WalksEnd name) ∧
        ∀ found, mapper.subtypes? name = some found →
          (found.map EntityModel.name).Pairwise (· < ·) ∧
          ∀ model, model ∈ found ↔ model ∈ mapper.models ∧ mapper.Below model name := by
  have registered := (MapperPlan.sound_of_assemble built).toRegistered
  refine ⟨registered.acyclic_iff, ⟨fun acyclic model => registered.climbs acyclic, ?_⟩, ?_,
    fun name => ⟨subtypes?_isSome_iff, fun found => registered.subtypes?_eq⟩⟩
  · intro ends model member
    obtain ⟨chain, climbs⟩ := ends model member
    exact registered.not_below member climbs
  · intro acyclic entity path
    exact resolveFrom_isSome (registered.acyclic_iff.mp acyclic) _ none _

/-- Shapes, circles, which are shapes, and rings, which are circles. -/
def rings : MapperPlan :=
  let circle := (EntityModel.blank "Circle").inherit (.blank "Shape")
  ⟨.standard, [.blank "Shape", circle, (EntityModel.blank "Ring").inherit circle], [], []⟩

/-- The walks among shapes, circles and rings end, and a ring is a subtype of the shape. -/
theorem subtypes_exact_rings : ∃ mapper found ring, rings.assemble = .ok mapper ∧
    mapper.Acyclic ∧ mapper.WalksEnd "Shape" ∧ mapper.subtypes? "Shape" = some found ∧
      ring.name = "Ring" ∧ ring ∈ found := by
  obtain ⟨mapper, built⟩ : ∃ mapper, rings.assemble = .ok mapper := ⟨_, rfl⟩
  obtain ⟨ending, -, -, members⟩ := subtypes_exact built
  have registered := (MapperPlan.sound_of_assemble built).toRegistered
  obtain ⟨shape, circle, ring, listed, parents, names⟩ : ∃ shape circle ring,
      mapper.models = [shape, circle, ring] ∧
      (shape.parent = none ∧ circle.parent = some "Shape" ∧ ring.parent = some "Circle") ∧
      shape.name = "Shape" ∧ circle.name = "Circle" ∧ ring.name = "Ring" := by
    cases built
    exact ⟨_, _, _, rfl, ⟨rfl, rfl, rfl⟩, rfl, rfl, rfl⟩
  have acyclic : mapper.Acyclic := by
    apply registered.acyclic_of_ordered <;> simp [listed, parents, names]
  have known : mapper.model? "Circle" = some circle :=
    names.2.1 ▸ registered.model?_of_mem (by simp [listed])
  have below : mapper.Below ring "Shape" :=
    ⟨"Circle", parents.2.2, .parent known parents.2.1 (.refl "Shape")⟩
  have ends := ending.mp acyclic "Shape"
  obtain ⟨found, answered⟩ := Option.isSome_iff_exists.mp ((members "Shape").1.mpr ends)
  obtain ⟨-, among⟩ := (members "Shape").2 found answered
  exact ⟨mapper, found, ring, built, acyclic, ends, answered, names.2.2,
    (among ring).mpr ⟨by simp [listed], below⟩⟩

/-- A shape that extends an older shape, which is not registered. -/
def renewedShapes : MapperPlan :=
  ⟨.standard, [(EntityModel.blank "Shape").inherit (.blank "Shape")], [], []⟩

/-- The renewed shape is its own ancestor: it is the only subtype of the shape, and the walk for
another name has no end, so that the subtypes of that name are never found. -/
theorem walk_without_end : ∃ mapper shape, renewedShapes.assemble = .ok mapper ∧
    shape ∈ mapper.models ∧ mapper.Below shape shape.name ∧
      mapper.subtypes? shape.name = some [shape] ∧
      mapper.meets "Circle" shape.parent = none ∧ mapper.subtypes? "Circle" = none := by
  obtain ⟨mapper, built⟩ : ∃ mapper, renewedShapes.assemble = .ok mapper := ⟨_, rfl⟩
  have registered := (MapperPlan.sound_of_assemble built).toRegistered
  obtain ⟨shape, single, parent⟩ : ∃ shape, mapper.models = [shape] ∧
      shape.parent = some shape.name ∧ shape.name = "Shape" := by
    cases built
    exact ⟨_, rfl, rfl, rfl⟩
  have member : shape ∈ mapper.models := by rw [single]; exact List.mem_singleton_self shape
  have circle : mapper.Below shape shape.name := ⟨shape.name, parent.1, .refl shape.name⟩
  have unmet : ¬ mapper.Below shape "Circle" := by
    intro below
    obtain ⟨lower, among, declared⟩ := below.declared member
    obtain rfl := List.mem_singleton.mp (single ▸ among)
    rw [parent.1, parent.2] at declared
    exact absurd declared (by decide)
  have itself : mapper.subtypes? shape.name = some [shape] := by
    rw [subtypes?, single, subtypesAmong, isSubtype_iff.mpr circle]
    exact congrArg some (List.mergeSort_singleton shape)
  have endless := registered.meets_eq_none member circle unmet
  have unanswered : mapper.subtypes? "Circle" = none := by
    rw [subtypes?, single, subtypesAmong, isSubtype, endless]
    rfl
  exact ⟨mapper, shape, built, member, circle, itself, endless, unanswered⟩

end EntityMapping.Mapper
