/-!
# Ordered keyed entries

A list of named entries that keeps the order in which the names first came.
Storing under a known name replaces the value in place, storing under a new
name appends, and removing a name leaves the order of the others alone. Every
document, map and entity of the library is such a list.
-/

namespace EntityMapping

/-- Named entries in the order in which their names were first stored. -/
abbrev Keyed (α : Type) := List (String × α)

namespace Keyed

variable {α β : Type}

/-- The value stored under a name. -/
def get? (key : String) : Keyed α → Option α
  | [] => none
  | (name, value) :: rest => if name = key then some value else get? key rest

/-- Whether a name is stored. -/
def has (key : String) (entries : Keyed α) : Bool :=
  (get? key entries).isSome

/-- The names in order. -/
def keys (entries : Keyed α) : List String :=
  entries.map Prod.fst

/-- Store a value: a known name keeps its place, a new one goes to the end. -/
def insert (key : String) (value : α) : Keyed α → Keyed α
  | [] => [(key, value)]
  | (name, old) :: rest =>
    if name = key then (name, value) :: rest else (name, old) :: insert key value rest

/-- Drop a name; the others keep their order. -/
def remove (key : String) (entries : Keyed α) : Keyed α :=
  entries.filter fun entry => !decide (entry.1 = key)

/-- Store a list of pairs one after another on top of what is there. -/
def overlay (base added : Keyed α) : Keyed α :=
  added.foldl (fun entries entry => insert entry.1 entry.2 entries) base

/-- The entries that result from storing pairs one after another. -/
def ofPairs (pairs : List (String × α)) : Keyed α :=
  overlay [] pairs

/-- Entries are distinct when no name is stored twice. -/
def Distinct (entries : Keyed α) : Prop :=
  (keys entries).Nodup

/-- Nothing is stored in the empty list. -/
@[simp] theorem get?_nil (key : String) : get? key ([] : Keyed α) = none := rfl

/-- A stored value is read back. -/
@[simp] theorem get?_insert_self (key : String) (value : α) (entries : Keyed α) :
    get? key (insert key value entries) = some value := by
  induction entries with
  | nil => simp [insert, get?]
  | cons entry rest ih =>
    obtain ⟨name, old⟩ := entry
    by_cases same : name = key
    · simp [insert, get?, same]
    · simp [insert, get?, same, ih]

/-- Storing under one name does not touch another. -/
theorem get?_insert_other {key other : String} (different : other ≠ key) (value : α)
    (entries : Keyed α) : get? other (insert key value entries) = get? other entries := by
  induction entries with
  | nil => simp [insert, get?, Ne.symm different]
  | cons entry rest ih =>
    obtain ⟨name, old⟩ := entry
    by_cases same : name = key
    · subst same
      simp [insert, get?, Ne.symm different]
    · by_cases here : name = other
      · subst here
        simp [insert, get?, same]
      · simp [insert, get?, same, here, ih]

/-- A known name keeps its place when it is stored again. -/
theorem keys_insert_known {key : String} {entries : Keyed α} (known : key ∈ keys entries)
    (value : α) : keys (insert key value entries) = keys entries := by
  induction entries with
  | nil => simp [keys] at known
  | cons entry rest ih =>
    obtain ⟨name, old⟩ := entry
    by_cases same : name = key
    · simp [insert, keys, same]
    · have later : key ∈ keys rest := by
        simpa [keys, Ne.symm same] using known
      simpa [insert, keys, same] using ih later

/-- A new name goes to the end. -/
theorem insert_new {key : String} {entries : Keyed α} (unknown : key ∉ keys entries)
    (value : α) : insert key value entries = entries ++ [(key, value)] := by
  induction entries with
  | nil => rfl
  | cons entry rest ih =>
    obtain ⟨name, old⟩ := entry
    have parts : key ≠ name ∧ key ∉ keys rest := by simpa [keys] using unknown
    simp [insert, Ne.symm parts.1, ih parts.2]

/-- Entries are distinct where the first name is not stored again and the others are distinct. -/
theorem distinct_cons {entry : String × α} {rest : Keyed α} :
    Distinct (entry :: rest) ↔ entry.1 ∉ keys rest ∧ Distinct rest := List.nodup_cons

/-- Storing keeps names distinct. -/
theorem Distinct.insert {entries : Keyed α} (distinct : Distinct entries) (key : String)
    (value : α) : Distinct (Keyed.insert key value entries) := by
  by_cases known : key ∈ keys entries
  · unfold Distinct
    rw [keys_insert_known known]
    exact distinct
  · unfold Distinct
    rw [insert_new known, keys, List.map_append, List.nodup_append]
    refine ⟨distinct, by simp, ?_⟩
    intro name member other last same
    have isKey : other = key := by simpa using last
    exact known (isKey ▸ same ▸ member)

/-- Storing pairs one after the other keeps names distinct. -/
theorem Distinct.overlay {base : Keyed α} (distinct : Distinct base) (added : Keyed α) :
    Distinct (Keyed.overlay base added) := by
  induction added generalizing base with
  | nil => exact distinct
  | cons entry rest ih => exact ih (distinct.insert entry.1 entry.2)

/-- Storing pairs with new names one after the other appends them. -/
theorem overlay_new {base added : Keyed α} (distinct : Distinct (base ++ added)) :
    overlay base added = base ++ added := by
  induction added generalizing base with
  | nil => simp [overlay]
  | cons entry rest ih =>
    obtain ⟨key, value⟩ := entry
    have unknown : key ∉ keys base := by
      intro known
      have parts := List.nodup_append.mp (by simpa [Distinct, keys] using distinct)
      exact parts.2.2 key (by simpa [keys] using known) key (by simp) rfl
    have assoc : base ++ (key, value) :: rest = (base ++ [(key, value)]) ++ rest := by simp
    rw [assoc] at distinct ⊢
    change overlay (insert key value base) rest = _
    rw [insert_new unknown, ih distinct]

/-- Storing distinct pairs one after the other gives just those pairs. -/
theorem ofPairs_distinct {entries : Keyed α} (distinct : Distinct entries) :
    ofPairs entries = entries := by
  exact @overlay_new α [] entries distinct

/-- A name that is not stored is not found. -/
theorem get?_eq_none {key : String} {entries : Keyed α} (unknown : key ∉ keys entries) :
    get? key entries = none := by
  induction entries with
  | nil => rfl
  | cons entry rest ih =>
    obtain ⟨name, value⟩ := entry
    have parts : key ≠ name ∧ key ∉ keys rest := by simpa [keys] using unknown
    rw [get?, if_neg (Ne.symm parts.1), ih parts.2]

/-- What is found under a name is stored under it. -/
theorem mem_of_get? {key : String} {value : α} {entries : Keyed α}
    (found : get? key entries = some value) : (key, value) ∈ entries := by
  induction entries with
  | nil => simp [get?] at found
  | cons entry rest ih =>
    obtain ⟨name, first⟩ := entry
    rw [get?] at found
    split at found
    · rename_i same
      obtain rfl := Option.some.inj found
      simp [same]
    · exact List.mem_cons_of_mem _ (ih found)

/-- What is there after storing a value is the value, or was there before. -/
theorem mem_insert {key : String} {value : α} {entries : Keyed α} {entry : String × α}
    (member : entry ∈ insert key value entries) : entry = (key, value) ∨ entry ∈ entries := by
  induction entries with
  | nil => exact .inl (List.mem_singleton.mp member)
  | cons first rest ih =>
    obtain ⟨name, old⟩ := first
    rw [insert] at member
    split at member
    · rename_i same
      rcases List.mem_cons.mp member with here | later
      · exact .inl (same ▸ here)
      · exact .inr (List.mem_cons_of_mem _ later)
    · rcases List.mem_cons.mp member with here | later
      · exact .inr (here ▸ List.mem_cons_self ..)
      · exact (ih later).imp_right (List.mem_cons_of_mem _)

/-- Where names are distinct, an entry is what its name finds. -/
theorem get?_of_mem {key : String} {value : α} {entries : Keyed α}
    (distinct : Distinct entries) (member : (key, value) ∈ entries) :
    get? key entries = some value := by
  induction entries with
  | nil => simp at member
  | cons entry rest ih =>
    obtain ⟨name, first⟩ := entry
    have parts := distinct_cons.mp distinct
    rcases List.mem_cons.mp member with here | later
    · obtain ⟨rfl, rfl⟩ := Prod.mk.inj here
      rw [get?, if_pos rfl]
    · have known : key ∈ keys rest := List.mem_map_of_mem later
      have different : name ≠ key := fun same => parts.1 (same ▸ known)
      rw [get?, if_neg different, ih parts.2 later]

/-- A stored name is found. -/
theorem get?_isSome {key : String} {entries : Keyed α} :
    (get? key entries).isSome = true ↔ key ∈ keys entries := by
  induction entries with
  | nil => simp [keys]
  | cons entry rest ih =>
    obtain ⟨name, value⟩ := entry
    rw [get?]
    by_cases same : name = key
    · simp [same, keys]
    · rw [if_neg same, ih]
      simp [keys, Ne.symm same]

/-- A dropped name is not found. -/
theorem get?_remove_self (key : String) (entries : Keyed α) :
    get? key (remove key entries) = none := by
  apply get?_eq_none
  simp [keys, remove]

/-- Dropping one name does not touch another. -/
theorem get?_remove_other {key other : String} (different : other ≠ key) (entries : Keyed α) :
    get? other (remove key entries) = get? other entries := by
  induction entries with
  | nil => rfl
  | cons entry rest ih =>
    obtain ⟨name, value⟩ := entry
    rw [remove, List.filter_cons]
    by_cases same : name = key
    · have here : name ≠ other := fun equal => different (equal ▸ same)
      rw [get?, if_neg here, ← ih, remove]
      simp [same]
    · rw [get?, ← ih, remove]
      simp [same, get?]

/-- Dropping a name keeps names distinct. -/
theorem Distinct.remove {entries : Keyed α} (distinct : Distinct entries) (key : String) :
    Distinct (Keyed.remove key entries) :=
  List.Nodup.sublist (List.filter_sublist.map Prod.fst) distinct

/-- What is stored under a new name is known, and so is what was. -/
theorem mem_keys_insert {key other : String} {value : α} {entries : Keyed α} :
    other ∈ keys (insert key value entries) ↔ other = key ∨ other ∈ keys entries := by
  rw [← get?_isSome, ← get?_isSome]
  by_cases same : other = key
  · simp [same]
  · simp [same, get?_insert_other same]

/-- Of two values stored under one name the later counts. -/
theorem insert_insert (key : String) (value old : α) (entries : Keyed α) :
    insert key value (insert key old entries) = insert key value entries := by
  induction entries with
  | nil => simp [insert]
  | cons entry rest ih =>
    obtain ⟨name, first⟩ := entry
    by_cases same : name = key
    · simp [insert, same]
    · simp [insert, same, ih]

/-- Where a name is known, it does not matter whether it or another one is stored first. -/
theorem insert_comm {key other : String} (different : key ≠ other) {entries : Keyed α}
    (known : key ∈ keys entries) (value added : α) :
    insert key value (insert other added entries) =
      insert other added (insert key value entries) := by
  induction entries with
  | nil => simp [keys] at known
  | cons entry rest ih =>
    obtain ⟨name, first⟩ := entry
    by_cases same : name = key
    · subst same
      simp [insert, different]
    · have later : key ∈ keys rest := by simpa [keys, Ne.symm same] using known
      by_cases here : name = other
      · subst here
        simp [insert, same]
      · simp [insert, same, here, ih later]

/-- A known name may be stored before others on top of it. -/
theorem insert_overlay {key : String} {base added : Keyed α} (known : key ∈ keys base)
    (fresh : key ∉ keys added) (value : α) :
    insert key value (overlay base added) = overlay (insert key value base) added := by
  induction added generalizing base with
  | nil => rfl
  | cons entry rest ih =>
    have parts : key ≠ entry.1 ∧ key ∉ keys rest := by simpa [keys] using fresh
    change insert key value (overlay (insert entry.1 entry.2 base) rest) =
      overlay (insert entry.1 entry.2 (insert key value base)) rest
    rw [ih (mem_keys_insert.mpr (.inr known)) parts.2, insert_comm parts.1 known]

/-- A value may be stored before or after its entries are stored on top of others. -/
theorem overlay_insert (base : Keyed α) {added : Keyed α} (distinct : Distinct added)
    (key : String) (value : α) :
    overlay base (insert key value added) = insert key value (overlay base added) := by
  induction added generalizing base with
  | nil => rfl
  | cons entry rest ih =>
    obtain ⟨name, old⟩ := entry
    have parts := distinct_cons.mp distinct
    by_cases same : name = key
    · subst same
      rw [insert, if_pos rfl]
      change overlay (insert name value base) rest =
        insert name value (overlay (insert name old base) rest)
      rw [insert_overlay (mem_keys_insert.mpr (.inl rfl)) parts.1, insert_insert]
    · rw [insert, if_neg same]
      exact ih (insert name old base) parts.2

/-- Changing every value changes what a name finds. -/
theorem get?_map (change : α → β) (key : String) (entries : Keyed α) :
    get? key (entries.map fun entry => (entry.1, change entry.2)) =
      (get? key entries).map change := by
  induction entries with
  | nil => rfl
  | cons entry rest ih =>
    obtain ⟨name, value⟩ := entry
    rw [List.map_cons, get?, get?]
    by_cases same : name = key
    · rw [if_pos same, if_pos same, Option.map_some]
    · rw [if_neg same, if_neg same, ih]

/-- Changing every value leaves the names. -/
theorem keys_map (change : α → β) (entries : Keyed α) :
    keys (entries.map fun entry => (entry.1, change entry.2)) = keys entries := by
  rw [keys, keys, List.map_map]
  rfl

/-- Changing every value keeps names distinct. -/
theorem Distinct.map {entries : Keyed α} (distinct : Distinct entries) (change : α → β) :
    Distinct (entries.map fun entry => (entry.1, change entry.2)) := by
  rwa [Distinct, keys_map]

end Keyed

end EntityMapping
