import Mathlib.Tactic.IntervalCases
import EntityMapping.Proofs.Bson.Pieces
/-!
# Documents on the wire

A value is written unless a key, a pattern or pattern options in it hold a NUL
character, at any depth and in scopes of code as well. What is written, and has no more
bytes than fit in thirty-one bits, is read back as the same value, but for the options
of patterns, which come back in the order of their characters. An array is written as
the document whose keys are its indices. Every nested value is shorter than what holds
it, so the count of all bytes is enough fuel for the reader.
-/

namespace EntityMapping

namespace Bson

/-- A value can be put on the wire as far as its own names and texts go: the keys of a document,
the pattern and the options of a pattern hold no NUL. -/
def writable : Bson → Prop
  | .document entries => ∀ entry ∈ entries, Wire.nul ∉ entry.1.toList
  | .regex pattern options => Wire.nul ∉ pattern.toList ∧ Wire.nul ∉ options.toList
  | _ => True

/-- No key, pattern or pattern options in a value hold a NUL. -/
def Writable (value : Bson) : Prop := value.Each writable

/-- A document can be put on the wire if its keys and values can. -/
theorem writable_document {entries : List (String × Bson)} :
    Writable (.document entries) ↔
      ∀ entry ∈ entries, Wire.nul ∉ entry.1.toList ∧ entry.2.Writable := by
  rw [Writable, each_document, writable]
  exact forall₂_and.symm

/-- An array can be put on the wire if its items can. -/
theorem writable_array {items : List Bson} :
    Writable (.array items) ↔ ∀ item ∈ items, item.Writable := by
  simp only [Writable, each_array, writable, true_and]

/-- Code with a scope can be put on the wire if the scope can. -/
theorem writable_scopedCode {source : String} {scope : List (String × Bson)} :
    Writable (.scopedCode source scope) ↔ Writable (.document scope) := by
  simp only [Writable, each_scopedCode, writable, true_and]

end Bson

namespace Wire

/-! ## Arrays as documents -/

/-- Items under their indices, from a given one on. -/
def indexed : Nat → List Bson → List (String × Bson)
  | _, [] => []
  | index, item :: rest => (indexName index, item) :: indexed (index + 1) rest

/-- An array is written as the document of its items under their indices. -/
theorem itemBytes_eq (index : Nat) (items : List Bson) :
    itemBytes index items = entryBytes (indexed index items) := by
  induction items generalizing index with
  | nil => rw [itemBytes, indexed, entryBytes]
  | cons item rest ih => rw [itemBytes, indexed, entryBytes, ih]

/-- The items are what stands under the indices. -/
theorem sortedEntries_indexed (index : Nat) (items : List Bson) :
    (Bson.sortedEntries (indexed index items)).map Prod.snd = Bson.sortedItems items := by
  induction items generalizing index with
  | nil => rfl
  | cons item rest ih =>
    rw [indexed, Bson.sortedEntries, Bson.sortedItems, List.map_cons, ih]

/-- What stands under an index is an item. -/
theorem mem_indexed {index : Nat} {items : List Bson} {entry : String × Bson}
    (member : entry ∈ indexed index items) :
    (∃ place, entry.1 = indexName place) ∧ entry.2 ∈ items := by
  induction items generalizing index with
  | nil => cases member
  | cons item rest ih =>
    rcases List.mem_cons.mp member with rfl | later
    · exact ⟨⟨index, rfl⟩, List.mem_cons_self ..⟩
    · exact ⟨(ih later).1, List.mem_cons_of_mem _ (ih later).2⟩

/-- Every item stands under an index. -/
theorem indexed_of_mem {items : List Bson} {item : Bson} (member : item ∈ items) (index : Nat) :
    ∃ name, (name, item) ∈ indexed index items := by
  induction items generalizing index with
  | nil => cases member
  | cons first rest ih =>
    rcases List.mem_cons.mp member with rfl | later
    · exact ⟨indexName index, List.mem_cons_self ..⟩
    · obtain ⟨name, known⟩ := ih later (index + 1)
      exact ⟨name, List.mem_cons_of_mem _ known⟩

/-- A decimal digit is no NUL. -/
theorem hexChar_ne_nul {digit : Nat} (small : digit < 10) : Digits.hexChar digit ≠ nul := by
  interval_cases digit <;> decide

/-- Decimal digits hold no NUL where those before do not. -/
theorem nul_notMem_digits (bound value : Nat) {shown : List Char} (plain : nul ∉ shown) :
    nul ∉ Integer.digitsWithin bound value shown := by
  induction bound generalizing value shown with
  | zero => exact plain
  | succ bound ih =>
    have next : nul ∉ Digits.hexChar (value % 10) :: shown := by
      rw [List.mem_cons, not_or]
      exact ⟨(hexChar_ne_nul (Nat.mod_lt value (by decide))).symm, plain⟩
    rw [Integer.digitsWithin]
    split
    · exact next
    · exact ih (value / 10) next

/-- The name of an item holds no NUL. -/
theorem nul_notMem_indexName (index : Nat) : nul ∉ (indexName index).toList := by
  rw [indexName, String.toList_ofList]
  exact nul_notMem_digits _ _ (by simp)

/-! ## What can be written -/

/-- Two parts are written where both are. -/
theorem isSome_bind {α β : Type} {first : Option α} {next : α → Option β} :
    (first.bind next).isSome = true ↔ ∃ value, first = some value ∧ (next value).isSome = true := by
  cases first <;> simp

/-- Entries are written where their keys hold no NUL and their values are written. -/
theorem entryBytes_isSome {entries : List (String × Bson)} :
    (entryBytes entries).isSome = true ↔
      ∀ entry ∈ entries, nul ∉ entry.1.toList ∧ (payload entry.2).isSome = true := by
  induction entries with
  | nil => simp [entryBytes]
  | cons entry rest ih =>
    obtain ⟨key, value⟩ := entry
    rw [List.forall_mem_cons, ← ih, ← name_isSome, entryBytes]
    simp only [Option.bind_eq_bind, isSome_bind, Option.isSome_some, and_true]
    simp only [Option.isSome_iff_exists]
    constructor
    · rintro ⟨label, named, content, written, others, later⟩
      exact ⟨⟨⟨label, named⟩, content, written⟩, others, later⟩
    · rintro ⟨⟨⟨label, named⟩, content, written⟩, others, later⟩
      exact ⟨label, named, content, written, others, later⟩

/-- A value is written unless a key, a pattern or pattern options in it hold a NUL. -/
theorem payload_isSome (value : Bson) : (payload value).isSome = true ↔ value.Writable := by
  induction value using Bson.parts_induction with
  | single value simple =>
    rw [Bson.Writable, Bson.each_single simple]
    cases value with
    | array | document | scopedCode => cases simple
    | regex pattern options =>
      rw [payload, Bson.writable, ← name_isSome, ← nul_mem_sortOptions, ← name_isSome]
      simp only [Option.bind_eq_bind, isSome_bind, Option.isSome_some, and_true]
      simp only [Option.isSome_iff_exists]
      constructor
      · rintro ⟨first, named, second, listed⟩
        exact ⟨⟨first, named⟩, second, listed⟩
      · rintro ⟨⟨first, named⟩, second, listed⟩
        exact ⟨first, named, second, listed⟩
    | binary subtype content =>
      simp only [payload, Bson.writable]
      split <;> simp
    | _ => simp [payload, Bson.writable]
  | array items each =>
    rw [payload, Option.isSome_map, itemBytes_eq, entryBytes_isSome, Bson.writable_array]
    constructor
    · intro written item member
      obtain ⟨name, known⟩ := indexed_of_mem member 0
      exact (each item member).mp (written _ known).2
    · intro writable entry member
      obtain ⟨⟨place, named⟩, known⟩ := mem_indexed member
      exact ⟨named ▸ nul_notMem_indexName place, (each _ known).mpr (writable _ known)⟩
  | document entries each =>
    rw [payload, Option.isSome_map, entryBytes_isSome, Bson.writable_document]
    exact forall₂_congr fun entry member => and_congr_right fun _ => each entry member
  | scopedCode source scope each =>
    have written : (payload (.scopedCode source scope)).isSome = (entryBytes scope).isSome := by
      rw [payload]
      cases entryBytes scope <;> rfl
    rw [written, entryBytes_isSome, Bson.writable_scopedCode, Bson.writable_document]
    exact forall₂_congr fun entry member => and_congr_right fun _ => each entry member

/-- A document is written unless a key, a pattern or pattern options in it hold a NUL. -/
theorem write_eq (document : Document) :
    (Bson.Writable (.document document) → ∃ bytes, write document = .ok bytes) ∧
      (¬ Bson.Writable (.document document) → write document = .error .unwritable) := by
  have written := payload_isSome (.document document)
  rw [payload, Option.isSome_map] at written
  rw [← written, write]
  cases entryBytes document with
  | some body => exact ⟨fun _ => ⟨_, rfl⟩, fun refused => absurd rfl refused⟩
  | none => exact ⟨fun known => absurd known Bool.false_ne_true, fun _ => rfl⟩

/-! ## What is read back -/

/-- A document has five bytes more than its entries. -/
theorem length_enclose (body : List UInt8) : (enclose body).length = body.length + 5 := by
  simp [enclose]
  omega

/-- The content of a document is taken back, with its final zero. -/
theorem readEnclosed_takes {body : List UInt8} (small : (enclose body).length < 2147483648) :
    Takes readEnclosed (enclose body) (body ++ [0]) := by
  intro rest
  rw [length_enclose] at small
  have counted := readLength_takes small (body ++ [0] ++ rest)
  have taken : split (body.length + 5 - 4) (body ++ [0] ++ rest) = some (body ++ [0], rest) :=
    split_takes (by simp) rest
  have form : enclose body ++ rest = word 4 (body.length + 5) ++ (body ++ [0] ++ rest) := by
    simp [enclose]
  rw [form, readEnclosed, counted]
  dsimp only [Option.bind_eq_bind, Option.bind_some]
  rw [if_neg (by omega), taken]

/-- A value comes back from its bytes, given fuel for them, with the options of patterns in
order. -/
def Restored (value : Bson) : Prop :=
  ∀ bytes fuel, payload value = some bytes → bytes.length < 2147483648 → bytes.length < fuel →
    Takes (readPayload fuel value.elementType) bytes value.sorted

/-- No type has the tag that ends a document. -/
theorem code_ne_zero (kind : ElementType) : kind.code ≠ 0 := by
  cases kind <;> decide

/-- Entries come back from their bytes and the final zero, where their values do. -/
theorem readEntries_restored {entries : List (String × Bson)}
    (each : ∀ entry ∈ entries, Restored entry.2) {body : List UInt8} {fuel : Nat}
    (written : entryBytes entries = some body) (small : body.length < 2147483648)
    (enough : body.length < fuel) :
    readEntries fuel (body ++ [0]) = some (Bson.sortedEntries entries) := by
  obtain ⟨fuel, rfl⟩ : ∃ less, fuel = less + 1 := Nat.exists_eq_add_one.mpr (by omega)
  induction entries generalizing body fuel with
  | nil =>
    rw [entryBytes] at written
    obtain rfl := Option.some.inj written
    rfl
  | cons entry rest ih =>
    obtain ⟨key, value⟩ := entry
    rw [entryBytes] at written
    obtain ⟨label, named, written⟩ := Option.bind_eq_some_iff.mp written
    obtain ⟨content, stored, written⟩ := Option.bind_eq_some_iff.mp written
    obtain ⟨others, later, written⟩ := Option.bind_eq_some_iff.mp written
    obtain rfl := Option.some.inj written
    simp only [List.length_cons, List.length_append] at small enough
    obtain ⟨fuel, rfl⟩ : ∃ less, fuel = less + 1 := Nat.exists_eq_add_one.mpr (by omega)
    have first := each (key, value) (by simp) content (fuel + 1) stored (by omega) (by omega)
      (others ++ [0])
    have rest := ih (fun entry member => each entry (by simp [member])) later (by omega) fuel
      (by omega)
    rw [List.cons_append, readEntries, if_neg (code_ne_zero _), ElementType.ofCode_code]
    dsimp only [Option.bind_eq_bind, Option.bind_some]
    rw [List.append_assoc, List.append_assoc, readName_takes named]
    dsimp only [Option.bind_some]
    rw [first]
    dsimp only [Option.bind_some]
    rw [rest]
    rfl

/-- A value without parts is read as such. -/
theorem readPayload_single {value : Bson} (simple : value.isSingle = true) (fuel : Nat) :
    readPayload (fuel + 1) value.elementType = readScalar value.elementType := by
  funext bytes
  cases value <;> first | (cases simple; done) | rfl

/-- An array comes back from its bytes, where its items do. -/
theorem restored_array {items : List Bson} (each : ∀ item ∈ items, Restored item) :
    Restored (.array items) := by
  intro bytes fuel written small enough rest
  obtain ⟨fuel, rfl⟩ : ∃ less, fuel = less + 1 := Nat.exists_eq_add_one.mpr (by omega)
  rw [payload, itemBytes_eq] at written
  obtain ⟨body, stored, rfl⟩ := Option.map_eq_some_iff.mp written
  have length := length_enclose body
  have read := readEntries_restored (fun entry member => each _ (mem_indexed member).2) stored
    (by omega) (show body.length < fuel by omega)
  change readPayload (fuel + 1) .array _ = _
  rw [readPayload, readEnclosed_takes small rest]
  dsimp only [Option.bind_eq_bind, Option.bind_some]
  rw [read]
  dsimp only [Option.bind_some]
  rw [sortedEntries_indexed, Bson.sorted]

/-- A document that keeps its names apart comes back from its bytes, where its values do. -/
theorem restored_document {entries : List (String × Bson)} (own : Keyed.Distinct entries)
    (each : ∀ entry ∈ entries, Restored entry.2) : Restored (.document entries) := by
  intro bytes fuel written small enough rest
  obtain ⟨fuel, rfl⟩ : ∃ less, fuel = less + 1 := Nat.exists_eq_add_one.mpr (by omega)
  rw [payload] at written
  obtain ⟨body, stored, rfl⟩ := Option.map_eq_some_iff.mp written
  have length := length_enclose body
  have read := readEntries_restored each stored (by omega) (show body.length < fuel by omega)
  change readPayload (fuel + 1) .embeddedDocument _ = _
  rw [readPayload, readEnclosed_takes small rest]
  dsimp only [Option.bind_eq_bind, Option.bind_some]
  rw [read]
  dsimp only [Option.bind_some]
  rw [Bson.ofPairs_sortedEntries own, Bson.sorted]

/-- Code with a scope that keeps its names apart comes back from its bytes, where the values in the
scope do. -/
theorem restored_scopedCode {source : String} {scope : List (String × Bson)}
    (own : Keyed.Distinct scope) (each : ∀ entry ∈ scope, Restored entry.2) :
    Restored (.scopedCode source scope) := by
  intro bytes fuel written small enough rest
  obtain ⟨fuel, rfl⟩ : ∃ less, fuel = less + 1 := Nat.exists_eq_add_one.mpr (by omega)
  rw [payload] at written
  obtain ⟨body, stored, written⟩ := Option.bind_eq_some_iff.mp written
  obtain rfl := Option.some.inj written
  have length := length_enclose body
  simp only [List.length_append, length_word] at small enough
  have counted := readLength_takes
    (show (string source ++ enclose body).length + 4 < 2147483648 by
      rw [List.length_append]; omega) (string source ++ enclose body ++ rest)
  have taken := split_takes (rfl : (string source ++ enclose body).length = _) rest
  have named := readString_takes (show (string source).length < 2147483648 by omega)
    (enclose body)
  have enclosed := readEnclosed_takes (show (enclose body).length < 2147483648 by omega) []
  rw [List.append_nil] at enclosed
  have read := readEntries_restored each stored (by omega) (show body.length < fuel by omega)
  change readPayload (fuel + 1) .javaScriptCodeWithScope _ = _
  rw [List.append_assoc, readPayload, counted]
  dsimp only [Option.bind_eq_bind, Option.bind_some]
  rw [Nat.add_sub_cancel, taken]
  dsimp only [Option.bind_some]
  rw [named]
  dsimp only [Option.bind_some]
  rw [enclosed]
  dsimp only [Option.bind_some]
  rw [read]
  dsimp only [Option.bind_some]
  rw [Bson.ofPairs_sortedEntries own, Bson.sorted]
  rfl

/-- Every value whose documents keep their names apart comes back from its bytes. -/
theorem restored {value : Bson} (apart : value.Apart) : Restored value := by
  induction value using Bson.parts_induction with
  | single value simple =>
    intro bytes fuel written small enough
    obtain ⟨fuel, rfl⟩ : ∃ less, fuel = less + 1 := Nat.exists_eq_add_one.mpr (by omega)
    rw [readPayload_single simple]
    exact readScalar_takes simple written small
  | array items each =>
    have inside := Bson.apart_array.mp apart
    exact restored_array fun item member => each item member (inside item member)
  | document entries each =>
    obtain ⟨own, inside⟩ := Bson.each_document.mp apart
    exact restored_document own fun entry member => each entry member (inside entry member)
  | scopedCode source scope each =>
    obtain ⟨-, whole⟩ := Bson.each_scopedCode.mp apart
    obtain ⟨own, inside⟩ := Bson.each_document.mp whole
    exact restored_scopedCode own fun entry member => each entry member (inside entry member)

/-- A document whose documents keep their names apart is read back from its bytes, unless they
are too many for a length. -/
theorem read_write {document : Document} {bytes : List UInt8}
    (written : write document = .ok bytes) (small : bytes.length < 2147483648)
    (apart : Bson.Apart (.document document)) :
    read bytes = .ok (Bson.sortedEntries document) := by
  obtain ⟨own, inside⟩ := Bson.each_document.mp apart
  rw [write] at written
  split at written
  · rename_i body stored
    obtain rfl := Except.ok.inj written
    have length := length_enclose body
    have enclosed := readEnclosed_takes small []
    rw [List.append_nil] at enclosed
    have entries := readEntries_restored (fun entry member => restored (inside entry member))
      stored (by omega) (show body.length < (enclose body).length + 1 by omega)
    rw [read]
    dsimp only
    rw [enclosed]
    dsimp only [Option.bind_eq_bind, Option.bind_some]
    rw [entries]
    dsimp only [Option.bind_some]
    rw [Bson.ofPairs_sortedEntries own]
  · cases written

end Wire

end EntityMapping
