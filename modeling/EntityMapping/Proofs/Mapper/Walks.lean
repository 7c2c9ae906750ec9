import Mathlib.Combinatorics.Pigeonhole
import EntityMapping.Mapper.Basic
/-!
# Walks to parents

A walk follows parents from a name on until it meets the name looked for or can go no further.
The names it may pass are those of registered models, so a walk that takes more steps than there
are models comes back to a name it has passed, and goes on in a circle. So counting steps is
exact: a walk has no answer where it could go on for ever and miss the name.
-/

namespace EntityMapping.Mapper

/-- The name that a walk comes to after a number of parents, whatever it looks for. -/
def ascend (mapper : Mapper) (start : Option String) : Nat → Option String
  | 0 => start
  | count + 1 =>
    (mapper.ascend start count).bind fun name => (mapper.model? name).bind EntityModel.parent

variable {mapper : Mapper} {name sought : String} {start : Option String} {answer : Bool}
  {steps count first second : Nat}

/-- The first parent may be taken before the walk. -/
theorem ascend_succ (start : Option String) (count : Nat) :
    mapper.ascend start (count + 1) =
      mapper.ascend (start.bind fun name => (mapper.model? name).bind EntityModel.parent) count := by
  induction count with
  | zero => rfl
  | succ count ih => rw [ascend, ih, ascend]

/-- A walk from nowhere comes nowhere. -/
theorem ascend_none (count : Nat) : mapper.ascend none count = none := by
  induction count with
  | zero => rfl
  | succ count ih => rw [ascend, ih, Option.bind_none]

/-- The steps run out where the walk has not met the name by then and is still somewhere. -/
theorem climb_eq_none_iff : mapper.climb sought steps start = none ↔
    (∀ count < steps, mapper.ascend start count ≠ some sought) ∧
      (mapper.ascend start steps).isSome = true := by
  fun_induction mapper.climb sought steps start with
  | case1 => simp [ascend_none]
  | case2 => simp [ascend]
  | case3 steps => exact iff_of_false nofun fun both => both.1 0 (Nat.succ_pos steps) rfl
  | case4 steps name apart ih =>
    -- The first place is the name itself; the others are those of the walk from its parent.
    have first : mapper.ascend (some name) 0 ≠ some sought := fun met =>
      apart (Option.some.inj met)
    simp only [ih, Nat.forall_lt_succ_left, ascend_succ, Option.bind_some]
    rw [and_iff_right first]

/-- A walk that goes on for ever and misses the name has no answer in any number of steps. -/
theorem climb_of_endless
    (endless : ∀ count, ∃ name, mapper.ascend start count = some name ∧ name ≠ sought)
    (steps : Nat) : mapper.climb sought steps start = none := by
  apply climb_eq_none_iff.mpr
  constructor
  · intro count _ met
    obtain ⟨name, reached, missed⟩ := endless count
    exact missed (Option.some.inj (reached.symm.trans met))
  · obtain ⟨name, reached, -⟩ := endless steps
    rw [reached, Option.isSome_some]

/-- Further steps do not change an answer. -/
theorem climb_succ (walked : mapper.climb sought steps start = some answer) :
    mapper.climb sought (steps + 1) start = some answer := by
  fun_induction mapper.climb sought steps start with
  | case1 => exact walked
  | case2 => cases walked
  | case3 steps =>
    rw [climb, if_pos rfl]
    exact walked
  | case4 steps name apart ih =>
    rw [climb, if_neg apart]
    exact ih walked

/-- A walk passes registered models only, before it comes to where it is. -/
theorem ascend_registered (further : (mapper.ascend start (count + 1)).isSome = true) :
    ∃ model ∈ mapper.models, mapper.ascend start count = some model.name := by
  obtain ⟨parent, reached⟩ := Option.isSome_iff_exists.mp further
  obtain ⟨name, passed, up⟩ := Option.bind_eq_some_iff.mp reached
  obtain ⟨model, found, -⟩ := Option.bind_eq_some_iff.mp up
  have named : model.name = name := by simpa using List.find?_some found
  exact ⟨model, List.mem_of_find?_eq_some found, named ▸ passed⟩

/-- A walk that has come somewhere was somewhere before. -/
theorem ascend_before (further : (mapper.ascend start steps).isSome = true)
    (before : count ≤ steps) : (mapper.ascend start count).isSome = true := by
  induction steps with
  | zero => rwa [Nat.le_zero.mp before]
  | succ steps ih =>
    rcases Nat.lt_or_eq_of_le before with earlier | rfl
    · obtain ⟨model, -, passed⟩ := ascend_registered further
      exact ih (by rw [passed]; rfl) (Nat.le_of_lt_succ earlier)
    · exact further

/-- A walk with more steps than there are models comes to one place twice. -/
theorem exists_repeat
    (further : (mapper.ascend start (mapper.models.length + 1)).isSome = true) :
    ∃ first second, first < second ∧ second ≤ mapper.models.length ∧
      mapper.ascend start first = mapper.ascend start second := by
  let names := (mapper.models.map fun model => some model.name).toFinset
  have few : names.card < (Finset.range (mapper.models.length + 1)).card := by
    rw [Finset.card_range, Nat.lt_succ_iff, ← List.length_map fun model => some model.name]
    exact List.toFinset_card_le _
  have inside : ∀ count ∈ Finset.range (mapper.models.length + 1),
      mapper.ascend start count ∈ names := by
    intro count small
    have before : count + 1 ≤ mapper.models.length + 1 := Finset.mem_range.mp small
    obtain ⟨model, member, passed⟩ := ascend_registered (ascend_before further before)
    rw [passed]
    exact List.mem_toFinset.mpr (List.mem_map_of_mem member)
  obtain ⟨one, oneSmall, other, otherSmall, apart, same⟩ :=
    Finset.exists_ne_map_eq_of_card_lt_of_maps_to few inside
  have oneBound := Finset.mem_range.mp oneSmall
  have otherBound := Finset.mem_range.mp otherSmall
  rcases Nat.lt_or_gt_of_ne apart with earlier | later
  · exact ⟨one, other, earlier, by omega, same⟩
  · exact ⟨other, one, later, by omega, same.symm⟩

/-- A walk that has come to one place twice stays among the places before. -/
theorem ascend_circle (earlier : first < second)
    (same : mapper.ascend start first = mapper.ascend start second) (count : Nat) :
    ∃ before < second, mapper.ascend start count = mapper.ascend start before := by
  induction count with
  | zero => exact ⟨0, by omega, rfl⟩
  | succ count ih =>
    obtain ⟨before, inside, here⟩ := ih
    have next : mapper.ascend start (count + 1) = mapper.ascend start (before + 1) := by
      rw [ascend, here, ascend]
    by_cases turn : before + 1 = second
    · exact ⟨first, earlier, by rw [next, turn, same]⟩
    · exact ⟨before + 1, by omega, next⟩

/-- A walk has no answer exactly where it goes on for ever and misses the name looked for. -/
theorem meets_eq_none_iff : mapper.meets sought start = none ↔
    ∀ count, ∃ name, mapper.ascend start count = some name ∧ name ≠ sought := by
  constructor
  · intro unanswered count
    obtain ⟨missed, further⟩ := climb_eq_none_iff.mp unanswered
    obtain ⟨first, second, earlier, bound, same⟩ := exists_repeat further
    obtain ⟨before, inside, here⟩ := ascend_circle earlier same count
    have small : before < mapper.models.length + 1 := by omega
    have somewhere := ascend_before further (Nat.le_of_lt small)
    obtain ⟨name, reached⟩ := Option.isSome_iff_exists.mp somewhere
    refine ⟨name, here.trans reached, fun found => missed before small ?_⟩
    rw [reached, found]
  · intro endless
    exact climb_of_endless endless _

/-- One more step changes nothing. -/
theorem climb_meets : mapper.climb sought (mapper.models.length + 2) start =
    mapper.meets sought start := by
  cases walk : mapper.meets sought start with
  | some answer => exact climb_succ walk
  | none => exact climb_of_endless (meets_eq_none_iff.mp walk) _

/-- From nowhere no name is met. -/
@[simp]
theorem meets_none : mapper.meets sought none = some false := rfl

/-- From a name on a walk meets that name, or what is met from its parent on. -/
theorem meets_some : mapper.meets sought (some name) =
    if name = sought then some true
    else mapper.meets sought ((mapper.model? name).bind EntityModel.parent) := by
  rw [← climb_meets]
  rfl

end EntityMapping.Mapper
