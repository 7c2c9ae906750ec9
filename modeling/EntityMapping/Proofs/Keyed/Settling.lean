import EntityMapping.Keyed
import Mathlib.Data.List.Induction
/-!
# What is left of entries given one after the other

A name that is given again keeps its place and takes the later value. So what is left are the
names in the order of their first use, each with the value given last for it, and nothing else:
`Keyed.Settles` says so, and determines the entries.
-/

namespace EntityMapping

namespace Keyed

variable {α : Type}

/-- The entries that pairs written one after another stand for. -/
structure Settles (pairs : List (String × α)) (entries : Keyed α) : Prop where
  /-- Names stand in the order in which they were first written. -/
  order : keys entries = (keys pairs).eraseDups
  /-- A name has the value that was written for it last. -/
  last : ∀ name, get? name entries = get? name pairs.reverse

/-- Storing pairs one after another stores no name twice. -/
theorem distinct_ofPairs (pairs : List (String × α)) : Distinct (ofPairs pairs) := by
  have nothing : Distinct ([] : Keyed α) := List.nodup_nil
  exact nothing.overlay pairs

/-- Storing one more pair than before. -/
theorem ofPairs_append (pairs : List (String × α)) (name : String) (value : α) :
    ofPairs (pairs ++ [(name, value)]) = insert name value (ofPairs pairs) := by
  simp only [ofPairs, overlay, List.foldl_append, List.foldl_cons, List.foldl_nil]

/-- Storing pairs one after another settles them. -/
theorem settles_ofPairs (pairs : List (String × α)) : Settles pairs (ofPairs pairs) := by
  induction pairs using List.reverseRecOn with
  | nil => exact ⟨rfl, fun _ => rfl⟩
  | append_singleton pairs pair ih =>
    obtain ⟨name, value⟩ := pair
    rw [ofPairs_append]
    have split : keys (pairs ++ [(name, value)]) = keys pairs ++ [name] := by simp [keys]
    have stored : name ∈ keys (ofPairs pairs) ↔ name ∈ keys pairs := by
      rw [ih.order, List.mem_eraseDups]
    constructor
    · rw [split, List.eraseDups_append, ← ih.order]
      by_cases known : name ∈ keys pairs
      · have dropped : [name].removeAll (keys pairs) = [] := by simp [List.removeAll, known]
        rw [keys_insert_known (stored.mpr known), dropped, List.eraseDups_nil, List.append_nil]
      · have kept : [name].removeAll (keys pairs) = [name] := by simp [List.removeAll, known]
        rw [insert_new (fun found => known (stored.mp found)), kept]
        simp [keys, List.eraseDups_cons]
    · intro other
      rw [List.reverse_append, List.reverse_singleton, List.singleton_append, get?]
      by_cases same : name = other
      · rw [if_pos same, same, get?_insert_self]
      · rw [if_neg same, get?_insert_other (Ne.symm same), ih.last]

/-- Distinct entries are given by their names and what each name finds. -/
theorem Distinct.eq_of_get? {left right : Keyed α} (distinct : Distinct left)
    (order : keys left = keys right) (found : ∀ name, get? name left = get? name right) :
    left = right := by
  induction left generalizing right with
  | nil =>
    have empty : right.map Prod.fst = [] := order.symm
    exact (List.map_eq_nil_iff.mp empty).symm
  | cons entry rest ih =>
    obtain ⟨name, value⟩ := entry
    cases right with
    | nil => cases order
    | cons other later =>
      obtain ⟨label, content⟩ := other
      obtain ⟨rfl, orders⟩ := List.cons.inj order
      have parts := distinct_cons.mp distinct
      have first : value = content := by simpa [get?] using found name
      have rests : ∀ other, get? other rest = get? other later := by
        intro other
        by_cases same : name = other
        · subst same
          have absent : name ∉ keys later := by
            rw [keys, ← orders]
            exact parts.1
          rw [get?_eq_none parts.1, get?_eq_none absent]
        · have looked := found other
          rwa [get?, get?, if_neg same, if_neg same] at looked
      rw [first, ih parts.2 orders rests]

/-- Pairs settle in one way only. -/
theorem Settles.eq_ofPairs {pairs : List (String × α)} {entries : Keyed α}
    (settles : Settles pairs entries) : entries = ofPairs pairs := by
  have stored : Settles pairs (ofPairs pairs) := settles_ofPairs pairs
  have order : keys (ofPairs pairs) = keys entries := by rw [stored.order, settles.order]
  symm
  apply (distinct_ofPairs pairs).eq_of_get? order
  intro name
  rw [stored.last, settles.last]

/-- Distinct names are looked up alike in another order. -/
theorem get?_perm {left right : Keyed α} (apart : Distinct left)
    (same : left.Perm right) (name : String) : get? name left = get? name right := by
  have names : (keys left).Perm (keys right) := same.map Prod.fst
  cases found : get? name left with
  | some value =>
    exact (get?_of_mem (names.nodup_iff.mp apart) (same.subset (mem_of_get? found))).symm
  | none =>
    refine (get?_eq_none fun member => ?_).symm
    rw [← names.mem_iff, ← get?_isSome, found] at member
    cases member

/-- A name is looked up in entries, and then in those after them. -/
theorem get?_append (name : String) (left right : Keyed α) :
    get? name (left ++ right) = (get? name left).or (get? name right) := by
  induction left with
  | nil => rfl
  | cons entry rest ih =>
    rw [List.cons_append, get?, get?, ih]
    split <;> rfl

/-- Storing what pairs settle to is storing the pairs. -/
theorem overlay_ofPairs (base : Keyed α) (pairs : List (String × α)) :
    overlay base (ofPairs pairs) = overlay base pairs := by
  induction pairs using List.reverseRecOn with
  | nil => rfl
  | append_singleton pairs pair ih =>
    rw [ofPairs_append, overlay_insert base (distinct_ofPairs pairs), ih]
    simp only [overlay, List.foldl_append, List.foldl_cons, List.foldl_nil]

/-- Pairs settle alike when their values are changed. -/
theorem Settles.map {β : Type} {pairs : List (String × α)} {entries : Keyed α}
    (settles : Settles pairs entries) (change : α → β) :
    Settles (pairs.map fun pair => (pair.1, change pair.2))
      (entries.map fun entry => (entry.1, change entry.2)) := by
  constructor
  · rw [keys_map, keys_map, settles.order]
  · intro name
    rw [get?_map, settles.last, ← List.map_reverse, get?_map]

/-- A value that is given first is replaced by what is given for its name later, and the other
names come after it. -/
theorem Settles.cons {pairs : List (String × α)} {entries : Keyed α} {name : String}
    (settles : Settles (remove name pairs) entries) (value : α) :
    Settles ((name, value) :: pairs) ((name, (get? name pairs.reverse).getD value) :: entries) := by
  have others : keys (remove name pairs) = (keys pairs).filter fun key => !(key == name) := by
    simp only [keys, remove, List.filter_map]
    rfl
  constructor
  · have order : name :: keys entries = (name :: keys pairs).eraseDups := by
      rw [settles.order, others, List.eraseDups_cons]
    exact order
  · intro other
    rw [List.reverse_cons, get?_append, get?, get?, get?]
    by_cases same : name = other
    · rw [if_pos same, if_pos same, same]
      cases get? other pairs.reverse <;> rfl
    · rw [if_neg same, if_neg same, Option.or_none, settles.last, remove, ← List.filter_reverse]
      exact get?_remove_other (Ne.symm same) pairs.reverse

end Keyed

end EntityMapping
