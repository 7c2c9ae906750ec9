import EntityMapping.Model.Basic
/-!
# Checked models

A model that passes its check has at most one id, stores no two fields under one
key, and stores none under its discriminator key. So a key of a document belongs
to one field at most, and to none where it is the discriminator's.
-/

namespace EntityMapping

/-- Where names are apart, an item is what its name finds. -/
theorem find?_of_nodup {α : Type} {name : α → String} {items : List α}
    (apart : (items.map name).Nodup) {item : α} (member : item ∈ items) :
    items.find? (fun other => decide (name other = name item)) = some item := by
  induction items with
  | nil => simp at member
  | cons first rest ih =>
    rw [List.map_cons, List.nodup_cons] at apart
    rcases List.mem_cons.mp member with rfl | later
    · simp
    · have different : name first ≠ name item :=
        fun same => apart.1 (same ▸ List.mem_map_of_mem later)
      rw [List.find?_cons_of_neg (by simpa using different)]
      exact ih apart.2 later

namespace EntityModel

/-- What the check of a model establishes. -/
structure Checked (model : EntityModel) : Prop where
  /-- No two fields are ids. -/
  oneId : (model.fields.filter fun field => field.isId).length ≤ 1
  /-- No two fields are stored under one key. -/
  storedApart : (model.fields.map Field.documentName).Nodup
  /-- No field is stored under the discriminator key. -/
  keyFree : ∀ key, model.activeKey = some key → key ∉ model.fields.map Field.documentName

/-- Where no shared name is found, names are stored apart, and apart from those seen. -/
theorem sharedName_none {seen : List String} {fields : List Field}
    (none : sharedName seen fields = none) :
    (fields.map Field.documentName).Nodup ∧
      ∀ name ∈ fields.map Field.documentName, name ∉ seen := by
  induction fields generalizing seen with
  | nil => simp
  | cons field rest ih =>
    rw [sharedName] at none
    split at none
    · simp at none
    · rename_i fresh
      have unseen : field.documentName ∉ seen := by simpa using fresh
      obtain ⟨apart, others⟩ := ih none
      rw [List.map_cons, List.nodup_cons]
      refine ⟨⟨fun again => ?_, apart⟩, fun name member => ?_⟩
      · exact others field.documentName again (List.mem_cons_self ..)
      · rcases List.mem_cons.mp member with rfl | later
        · exact unseen
        · exact fun known => others name later (List.mem_cons_of_mem _ known)

/-- A key under which no field is found is the key of no field. -/
theorem fieldStoredAs_none {model : EntityModel} {key : String}
    (none : model.fieldStoredAs key = none) : key ∉ model.fields.map Field.documentName := by
  intro member
  obtain ⟨field, known, same⟩ := List.mem_map.mp member
  have different := List.find?_eq_none.mp none field known
  simp [same] at different

/-- A field found under a key is a field of the model, stored under that key. -/
theorem fieldStoredAs_some {model : EntityModel} {key : String} {field : Field}
    (found : model.fieldStoredAs key = some field) :
    field ∈ model.fields ∧ field.documentName = key := by
  refine ⟨List.mem_of_find?_eq_some found, ?_⟩
  simpa using List.find?_some found

/-- A model that passes its check is checked. -/
theorem checked_of_check {model : EntityModel} (passed : model.check = .ok ()) :
    model.Checked := by
  unfold check at passed
  dsimp only at passed
  split at passed
  · simp at passed
  rename_i few
  split at passed
  · simp at passed
  rename_i apart
  refine ⟨by omega, (sharedName_none apart).1, fun key active => ?_⟩
  rw [active] at passed
  dsimp only at passed
  split at passed
  · simp at passed
  · rename_i free
    exact fieldStoredAs_none free

/-- No shared name is found where names are stored apart, and apart from those seen. -/
theorem sharedName_eq_none {seen : List String} {fields : List Field}
    (apart : (fields.map Field.documentName).Nodup)
    (unseen : ∀ field ∈ fields, field.documentName ∉ seen) : sharedName seen fields = none := by
  induction fields generalizing seen with
  | nil => rfl
  | cons field rest ih =>
    obtain ⟨fresh, others⟩ := List.nodup_cons.mp apart
    rw [sharedName, if_neg (by simpa using unseen field (by simp))]
    refine ih others fun other member known => ?_
    rcases List.mem_cons.mp known with same | before
    · exact fresh (same ▸ List.mem_map_of_mem member)
    · exact unseen other (by simp [member]) before

/-- A model passes its check exactly when it is checked. -/
theorem check_eq_ok_iff {model : EntityModel} : model.check = .ok () ↔ model.Checked := by
  refine ⟨checked_of_check, fun checked => ?_⟩
  have few : ¬ 1 < (model.fields.filter fun field => field.isId).length :=
    Nat.not_lt.mpr checked.oneId
  rw [check, if_neg few, sharedName_eq_none checked.storedApart (by simp)]
  cases active : model.activeKey with
  | none => rfl
  | some key =>
    dsimp only
    cases found : model.fieldStoredAs key with
    | none => rfl
    | some field =>
      obtain ⟨member, stored⟩ := fieldStoredAs_some found
      exact absurd (stored ▸ List.mem_map_of_mem member) (checked.keyFree key active)

/-- The check looks at ids, keys and the discriminator alone. -/
theorem Checked.congr {model other : EntityModel} (checked : model.Checked)
    (ids : other.fields.map Field.isId = model.fields.map Field.isId)
    (names : other.fields.map Field.documentName = model.fields.map Field.documentName)
    (key : other.activeKey = model.activeKey) : other.Checked := by
  have count : ∀ fields : List Field, (fields.filter fun field => field.isId).length =
      ((fields.map Field.isId).filter id).length := by
    intro fields
    rw [List.filter_map, List.length_map]
    rfl
  refine ⟨?_, names ▸ checked.storedApart, fun name active => ?_⟩
  · rw [count, ids, ← count]
    exact checked.oneId
  · rw [names]
    exact checked.keyFree name (key ▸ active)

/-- In a checked model a field is found under its key. -/
theorem Checked.fieldStoredAs_of_mem {model : EntityModel} (checked : model.Checked)
    {field : Field} (member : field ∈ model.fields) :
    model.fieldStoredAs field.documentName = some field :=
  find?_of_nodup checked.storedApart member

/-- The only id of a checked model is its id field. -/
theorem Checked.mem_idField {model : EntityModel} (checked : model.Checked) {field : Field}
    (member : field ∈ model.fields) (identifier : field.isId = true) :
    field ∈ model.idField.toList := by
  have known : field ∈ model.fields.filter fun field => field.isId :=
    List.mem_filter.mpr ⟨member, identifier⟩
  have few := checked.oneId
  rw [idField, ← List.head?_filter]
  generalize (model.fields.filter fun field => field.isId) = ids at known few
  cases ids with
  | nil => simp at known
  | cons first rest =>
    obtain rfl : rest = [] := List.eq_nil_of_length_eq_zero (by simpa using few)
    simpa using known

end EntityModel

end EntityMapping
