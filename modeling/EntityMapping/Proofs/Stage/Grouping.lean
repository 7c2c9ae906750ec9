import EntityMapping.Proofs.Keyed.Settling
import EntityMapping.Proofs.Stage.Compile
/-!
# The output fields of a grouping

The key of a grouping and its output fields are kept apart, but written into one document, the key
first and under a name that an output field may have as well. Every other output field stands
after the key, in the order of first use and with the expression given last. One with the name of
the key takes the place of the key.
-/

namespace EntityMapping

namespace Group

/-- The grouping with output fields given one after the other. -/
def withFields (id : Option (Accumulation Expression)) (calls : List (String × Expression)) :
    Group :=
  calls.foldl (fun group call => group.withField call.1 call.2) (keyed id)

/-- Output fields leave the key alone, and are stored as they are given. -/
theorem withFields_eq (id : Option (Accumulation Expression))
    (calls : List (String × Expression)) : withFields id calls = ⟨id, Keyed.ofPairs calls⟩ := by
  induction calls using List.reverseRecOn with
  | nil => rfl
  | append_singleton calls call ih =>
    have last : withFields id (calls ++ [call]) = (withFields id calls).withField call.1 call.2 := by
      rw [withFields, List.foldl_append]
      rfl
    rw [last, ih, Keyed.ofPairs_append]
    rfl

end Group

namespace Stage

open Keyed

/-- The payload of a grouping begins with an entry for the key. The other output fields follow it
in the order of their first use, each with the expression given last for it. An output field with
the name of the key takes the place of the key, so that the payload is the key and behind it the
output fields exactly where none has this name. -/
theorem group_document (id : Option (Accumulation Expression))
    (calls : List (String × Expression)) :
    let given := calls.map fun call => (call.1, call.2.meaning)
    ∃ first outputs, (group (.withFields id calls)).document =
        .ok [("$group", .document (("_id", first) :: outputs))] ∧
      first = (get? "_id" given.reverse).getD (Group.keyMeaning id) ∧
      Settles (remove "_id" given) outputs ∧
      ((first = Group.keyMeaning id ∧ Settles given outputs) ↔ "_id" ∉ keys calls) := by
  intro given
  have fields : Expression.meaningEntries (ofPairs calls) = ofPairs given := by
    rw [Expression.meaningEntries_eq]
    exact ((settles_ofPairs calls).map Expression.meaning).eq_ofPairs
  have outputs := settles_ofPairs (remove "_id" given)
  have written : (group (.withFields id calls)).document =
      .ok [("$group", .document (("_id", (get? "_id" given.reverse).getD (Group.keyMeaning id)) ::
        ofPairs (remove "_id" given)))] := by
    rw [document_eq, meaning, payload, Group.withFields_eq, fields,
      (outputs.cons (Group.keyMeaning id)).eq_ofPairs]
    exact congrArg (fun entries => Except.ok [("$group", Bson.document entries)])
      (overlay_ofPairs [("_id", Group.keyMeaning id)] given)
  refine ⟨_, _, written, rfl, outputs, ?_⟩
  have names : keys given = keys calls := keys_map Expression.meaning calls
  constructor
  · rintro ⟨-, all⟩ listed
    have stays : "_id" ∈ keys (ofPairs (remove "_id" given)) := by
      rwa [all.order, List.mem_eraseDups, names]
    rw [outputs.order, List.mem_eraseDups, ← get?_isSome, get?_remove_self] at stays
    cases stays
  · intro fresh
    rw [← names] at fresh
    have nothing : remove "_id" given = given := by
      refine List.filter_eq_self.mpr fun call member => ?_
      have other : call.1 ≠ "_id" := fun same => fresh (same ▸ List.mem_map_of_mem member)
      simpa using other
    have missing : get? "_id" given.reverse = none := by
      refine get?_eq_none fun member => fresh ?_
      simpa [keys] using member
    rw [missing, nothing]
    exact ⟨rfl, settles_ofPairs given⟩

/-- A grouping by one field whose output field has the name of the key is written without the
key. -/
theorem group_document_id :
    let calls := [("_id", Expression.sum (.ofField "b"))]
    let id := some (Accumulation.single (Expression.ofField "a"))
    Group.keyMeaning id = .string "$a" ∧ (group (.withFields id calls)).document =
      .ok [("$group", .document [("_id", .document [("$sum", .string "$b")])])] := by
  constructor
  · rfl
  · rw [document_eq]
    rfl

end Stage

end EntityMapping
