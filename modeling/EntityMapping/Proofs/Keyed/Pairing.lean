import EntityMapping.Keyed
import Mathlib.Data.List.Forall2
import Mathlib.Data.List.Perm.Subperm
/-!
# Entries paired by their names

Every entry of the left that counts is looked up on the right, and as many count on both sides.
Where names are kept apart, the names that count are then the same ones, and so no entry of the
right is left without a partner. This carries symmetry from values to entries; transitivity needs
no counting.
-/

namespace EntityMapping

section

variable {α : Type} {related : α → α → Prop}

/-- Whatever something is related to is related to it. -/
def SymmetricAt (related : α → α → Prop) (one : α) : Prop :=
  ∀ other, related one other → related other one

/-- Something is related to whatever is two steps away. -/
def TransitiveAt (related : α → α → Prop) (one : α) : Prop :=
  ∀ other last, related one other → related other last → related one last

/-- Lists that are related item by item are so the other way round. -/
theorem SymmetricAt.items {items : List α} (each : ∀ item ∈ items, SymmetricAt related item) :
    SymmetricAt (List.Forall₂ related) items := by
  intro others matched
  induction matched with
  | nil => exact .nil
  | cons first _ ih =>
    obtain ⟨here, later⟩ := List.forall_mem_cons.mp each
    exact .cons (here _ first) (ih later)

/-- Lists that are related item by item in two steps are so in one. -/
theorem TransitiveAt.items {items : List α} (each : ∀ item ∈ items, TransitiveAt related item) :
    TransitiveAt (List.Forall₂ related) items := by
  intro others lasts matched
  induction matched generalizing lasts with
  | nil => exact id
  | cons first _ ih =>
    obtain ⟨here, later⟩ := List.forall_mem_cons.mp each
    rintro ⟨⟩
    rename_i second others
    exact .cons (here _ _ first second) (ih later _ others)

end

/-! ## Entries that are compared by their names -/

namespace Keyed

variable {α : Type} {counts : α → Bool} {related : α → α → Prop} {left right other : Keyed α}

/-- The entries whose values count. -/
def counted (counts : α → Bool) (entries : Keyed α) : Keyed α :=
  entries.filter fun entry => counts entry.2

/-- As many entries count on both sides, and every one that does on the left has a related one of
its name on the right. -/
structure Paired (counts : α → Bool) (related : α → α → Prop) (left right : Keyed α) : Prop where
  /-- As many entries count on the right as do on the left. -/
  count : (counted counts left).length = (counted counts right).length
  /-- What counts on the left is looked up on the right. -/
  found : ∀ entry ∈ counted counts left, ∃ value,
    get? entry.1 right = some value ∧ related entry.2 value

/-- Entries are paired where as many count, and those on the left that do have a partner. -/
theorem paired_iff : Paired counts related left right ↔
    (counted counts left).length = (counted counts right).length ∧
      ∀ entry ∈ left, counts entry.2 = true →
        ∃ value, get? entry.1 right = some value ∧ related entry.2 value := by
  constructor
  · rintro ⟨count, found⟩
    exact ⟨count, fun entry member counting => found entry (List.mem_filter.mpr ⟨member, counting⟩)⟩
  · rintro ⟨count, found⟩
    refine ⟨count, fun entry member => ?_⟩
    obtain ⟨listed, counting⟩ := List.mem_filter.mp member
    exact found entry listed counting

/-- Where every entry counts, all are counted and all on the left have a partner. -/
theorem paired_all : Paired (fun _ => true) related left right ↔
    left.length = right.length ∧
      ∀ entry ∈ left, ∃ value, get? entry.1 right = some value ∧ related entry.2 value := by
  rw [paired_iff]
  simp only [counted, List.filter_true, forall_const]

/-- The names that count are distinct where all names are. -/
theorem Distinct.counted (apart : Distinct left) (counts : α → Bool) :
    Distinct (counted counts left) :=
  List.Nodup.sublist (List.filter_sublist.map Prod.fst) apart

section

variable (kept : ∀ one another, related one another → counts one = counts another)

include kept

/-- What is found for an entry that counts is among those that count. -/
theorem mem_counted (partners : ∀ entry ∈ Keyed.counted counts left, ∃ value,
      get? entry.1 right = some value ∧ related entry.2 value) {entry : String × α}
    (member : entry ∈ Keyed.counted counts left) {value : α}
    (found : get? entry.1 right = some value) :
    (entry.1, value) ∈ Keyed.counted counts right := by
  obtain ⟨same, known, alike⟩ := partners entry member
  obtain rfl := Option.some.inj (found.symm.trans known)
  refine List.mem_filter.mpr ⟨mem_of_get? found, ?_⟩
  exact (kept _ _ alike).symm.trans (List.mem_filter.mp member).2

/-- Names of entries that have partners are names of entries that count. -/
theorem names_subset (partners : ∀ entry ∈ Keyed.counted counts left, ∃ value,
      get? entry.1 right = some value ∧ related entry.2 value) :
    keys (Keyed.counted counts left) ⊆ keys (Keyed.counted counts right) := by
  intro name member
  obtain ⟨entry, listed, rfl⟩ := List.mem_map.mp member
  obtain ⟨value, found, -⟩ := partners entry listed
  exact List.mem_map.mpr ⟨_, mem_counted kept partners listed found, rfl⟩

/-- The names that count are the same on both sides. -/
theorem Paired.names (paired : Paired counts related left right) (apart : Distinct left) :
    (keys (Keyed.counted counts left)).Perm (keys (Keyed.counted counts right)) := by
  have included := List.subperm_of_subset (apart.counted counts) (names_subset kept paired.found)
  refine included.perm_of_length_le ?_
  simp only [keys, List.length_map, paired.count, Nat.le_refl]

/-- Entries are paired where those that count have partners on both sides. -/
theorem paired_of_found (leftApart : Distinct left) (rightApart : Distinct right)
    (forth : ∀ entry ∈ Keyed.counted counts left, ∃ value,
      get? entry.1 right = some value ∧ related entry.2 value)
    (back : ∀ entry ∈ Keyed.counted counts right, ∃ value,
      get? entry.1 left = some value ∧ related entry.2 value) :
    Paired counts related left right := by
  have fewer := List.subperm_of_subset (leftApart.counted counts) (names_subset kept forth)
  have more := List.subperm_of_subset (rightApart.counted counts) (names_subset kept back)
  have count := Nat.le_antisymm fewer.length_le more.length_le
  exact ⟨by simpa [keys] using count, forth⟩

/-- Entries are paired the other way round where their values are related so. -/
theorem Paired.symmetricAt (apart : Distinct left)
    (each : ∀ entry ∈ left, SymmetricAt related entry.2) :
    SymmetricAt (Paired counts related) left := by
  intro right paired
  have names := paired.names kept apart
  have distinct : Distinct (Keyed.counted counts right) := names.nodup_iff.mp (apart.counted counts)
  refine ⟨paired.count.symm, fun entry member => ?_⟩
  obtain ⟨mine, listed, name⟩ := List.mem_map.mp (names.mem_iff.mpr (List.mem_map_of_mem member))
  obtain ⟨value, found, alike⟩ := paired.found mine listed
  have here := mem_counted kept paired.found listed found
  -- The name that is looked up leads back to the entry, since it counts only once.
  obtain rfl : value = entry.2 := by
    rw [name] at here
    exact Option.some.inj ((get?_of_mem distinct here).symm.trans (get?_of_mem distinct member))
  have original := (List.mem_filter.mp listed).1
  exact ⟨mine.2, name ▸ get?_of_mem apart original, each mine original _ alike⟩

/-- Entries that are paired in two steps are so in one, where their values are related so. -/
theorem Paired.transitiveAt (each : ∀ entry ∈ left, TransitiveAt related entry.2) :
    TransitiveAt (Paired counts related) left := by
  intro middle right paired again
  refine ⟨paired.count.trans again.count, fun entry member => ?_⟩
  obtain ⟨value, found, alike⟩ := paired.found entry member
  obtain ⟨last, known, next⟩ := again.found _ (mem_counted kept paired.found member found)
  exact ⟨last, known, each entry (List.mem_filter.mp member).1 _ _ alike next⟩

/-- On the right it does not matter what does not count, nor in which order the rest stands. -/
theorem paired_perm_right (leftApart : Distinct left) (rightApart : Distinct right)
    (same : (Keyed.counted counts left).Perm (Keyed.counted counts right)) :
    Paired counts related other left ↔ Paired counts related other right := by
  have one : ∀ {left right : Keyed α}, Distinct right →
      (Keyed.counted counts left).Perm (Keyed.counted counts right) →
      Paired counts related other left → Paired counts related other right := by
    intro left right apart same paired
    refine ⟨paired.count.trans same.length_eq, fun entry member => ?_⟩
    obtain ⟨value, found, alike⟩ := paired.found entry member
    have here := same.subset (mem_counted kept paired.found member found)
    exact ⟨value, get?_of_mem apart (List.mem_filter.mp here).1, alike⟩
  exact ⟨one rightApart same, one leftApart same.symm⟩

end

/-- On the left it does not matter what does not count, nor in which order the rest stands. -/
theorem paired_perm_left (same : (counted counts left).Perm (counted counts right)) :
    Paired counts related left other ↔ Paired counts related right other := by
  have one : ∀ {left right : Keyed α}, (counted counts left).Perm (counted counts right) →
      Paired counts related left other → Paired counts related right other :=
    fun same paired => ⟨same.length_eq.symm.trans paired.count,
      fun entry member => paired.found entry (same.symm.subset member)⟩
  exact ⟨one same, one same.symm⟩

/-- Entries are paired with themselves where the values that count are related to themselves. -/
theorem paired_self (apart : Distinct left) :
    Paired counts related left left ↔ ∀ entry ∈ left, counts entry.2 = true →
      related entry.2 entry.2 := by
  constructor
  · intro paired entry member counting
    obtain ⟨value, found, alike⟩ := paired.found entry (List.mem_filter.mpr ⟨member, counting⟩)
    obtain rfl := Option.some.inj (found.symm.trans (get?_of_mem apart member))
    exact alike
  · intro each
    refine ⟨rfl, fun entry member => ?_⟩
    obtain ⟨listed, counting⟩ := List.mem_filter.mp member
    exact ⟨entry.2, get?_of_mem apart listed, each entry listed counting⟩

end Keyed

end EntityMapping
