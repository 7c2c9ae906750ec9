import Mathlib.Data.List.Sort
import EntityMapping.Bson.Wire
import EntityMapping.Proofs.Bson.Subvalues
/-!
# Pieces of a document on the wire

Words, texts, names and values without parts are written as bytes and taken off the
front of bytes again, whatever follows them. A name is written unless it holds a NUL
character, which would end it early. What carries its length is taken back as long as
the length has no more than thirty-one bits. The options of a pattern come back in the
order of their characters.
-/

namespace EntityMapping.Wire

/-- A reader takes bytes off the front for a value, whatever follows them. -/
def Takes {α : Type} (read : List UInt8 → Option (α × List UInt8)) (bytes : List UInt8)
    (value : α) : Prop :=
  ∀ rest, read (bytes ++ rest) = some (value, rest)

/-! ## Words -/

/-- Bytes are the digits of a number in their base. -/
theorem toNat_ofDigits {digits : List Nat} (small : ∀ digit ∈ digits, digit < 256) :
    (ofDigits digits).map UInt8.toNat = digits := by
  rw [ofDigits, List.map_map]
  refine List.map_congr_left (fun digit member => ?_) |>.trans (List.map_id digits)
  simp [Nat.mod_eq_of_lt (small digit member)]

/-- A word has as many bytes as were asked for. -/
@[simp] theorem length_word (count value : Nat) : (word count value).length = count := by
  simp [word, ofDigits]

/-- A field has as many bytes as were asked for. -/
@[simp] theorem length_field (count value : Nat) : (field count value).length = count := by
  simp [field, ofDigits, Digits.big]

/-- A word denotes its number again, up to the bytes that were kept. -/
theorem ofWord_word (count value : Nat) :
    ofWord (word count value) = value % Nat.pow 256 count := by
  rw [ofWord, word, toNat_ofDigits (Digits.little_lt (by decide) count value), Digits.ofLittle_little]

/-- A field denotes its number again, up to the bytes that were kept. -/
theorem ofField_field (count value : Nat) :
    ofField (field count value) = value % Nat.pow 256 count := by
  have small : ∀ digit ∈ Digits.big 256 count value, digit < 256 := by
    intro digit member
    exact Digits.little_lt (by decide) count value digit (List.mem_reverse.mp member)
  rw [ofField, field, toNat_ofDigits small, Digits.ofBig_big]

/-- A word of four bytes denotes its number again. -/
theorem ofWord_uint32 (value : UInt32) : UInt32.ofNat (ofWord (word 4 value.toNat)) = value := by
  rw [ofWord_word]
  exact (congrArg UInt32.ofNat (Nat.mod_eq_of_lt value.toNat_lt)).trans UInt32.ofNat_toNat

/-- A word of eight bytes denotes its number again. -/
theorem ofWord_uint64 (value : UInt64) : UInt64.ofNat (ofWord (word 8 value.toNat)) = value := by
  rw [ofWord_word]
  exact (congrArg UInt64.ofNat (Nat.mod_eq_of_lt value.toNat_lt)).trans UInt64.ofNat_toNat

/-- A field of an identifier denotes the identifier again. -/
theorem ofField_objectId (id : ObjectId) :
    ObjectId.ofNat (ofField (field 12 id.value.toNat)) = id := by
  obtain ⟨value⟩ := id
  rw [ofField_field, ObjectId.ofNat]
  refine congrArg ObjectId.mk (Eq.trans (congrArg _ (Nat.mod_eq_of_lt value.isLt)) ?_)
  rw [BitVec.ofNat_toNat, BitVec.setWidth_eq]

/-- A field of a decimal denotes the decimal again. -/
theorem ofField_decimal (value : BitVec 128) :
    BitVec.ofNat 128 (ofField (field 16 value.toNat)) = value := by
  rw [ofField_field]
  refine Eq.trans (congrArg _ (Nat.mod_eq_of_lt value.isLt)) ?_
  rw [BitVec.ofNat_toNat, BitVec.setWidth_eq]

/-- As many bytes as are asked for are taken off the front. -/
theorem split_takes {count : Nat} {head : List UInt8} (length : head.length = count) :
    Takes (split count) head head := by
  intro rest
  subst length
  simp [split]

/-- A length is taken back if it has no more than thirty-one bits. -/
theorem readLength_takes {value : Nat} (small : value < 2147483648) :
    Takes readLength (word 4 value) value := by
  intro rest
  have same : ofWord (word 4 value) = value := by
    rw [ofWord_word]
    exact Nat.mod_eq_of_lt (Nat.lt_trans small (by decide))
  simp [readLength, split_takes (length_word 4 value) rest, same, small]

/-! ## Texts -/

/-- The character with which names end on the wire. -/
def nul : Char := Char.ofNat 0

/-- The bytes that are left of an array are added one by one. -/
theorem toList_loop (bytes : ByteArray) (left : Nat) :
    ∀ index found, index + left = bytes.size →
      ByteArray.toList.loop bytes index found =
        found.reverse ++ bytes.data.toList.drop index := by
  induction left with
  | zero =>
    intro index found whole
    have ended : bytes.data.toList.length ≤ index := Nat.le_of_eq whole.symm
    rw [ByteArray.toList.loop, if_neg (by omega), List.drop_eq_nil_of_le ended, List.append_nil]
  | succ left ih =>
    intro index found whole
    have inside : index < bytes.data.size := by
      change index < bytes.size
      omega
    have next : bytes.get! index = bytes.data.toList[index] := getElem!_pos bytes.data index inside
    rw [ByteArray.toList.loop, if_pos (by omega), ih _ _ (by omega), next, List.reverse_cons,
      List.append_assoc, List.singleton_append, ← List.drop_eq_getElem_cons]

/-- The bytes of a text are those it is made of. -/
theorem textBytes_eq (text : String) : textBytes text = text.toByteArray.data.toList := by
  rw [textBytes, String.toUTF8, ByteArray.toList, toList_loop _ _ 0 [] (Nat.zero_add _)]
  simp

/-- The bytes of a text are those of that text. -/
theorem ofTextBytes_textBytes (text : String) : ofTextBytes (textBytes text) = some text := by
  rw [ofTextBytes, textBytes_eq, Array.toArray_toList, String.fromUTF8?,
    dif_pos text.isValidUTF8]
  rfl

/-- A byte that is more than a multiple of its range is no zero. -/
theorem ofNat_ne_zero {value : Nat} (positive : 0 < value) (small : value < 256) :
    (0 : UInt8) ≠ UInt8.ofNat value := by
  intro same
  have zero := congrArg UInt8.toNat same
  rw [UInt8.toNat_ofNat', Nat.mod_eq_of_lt small] at zero
  exact absurd zero.symm (Nat.ne_of_gt positive)

/-- Only the NUL character has a zero byte. -/
theorem zero_mem_encodeChar (c : Char) : 0 ∈ String.utf8EncodeChar c ↔ c = nul := by
  have code : c = nul ↔ c.val.toNat = 0 :=
    ⟨fun same => by rw [same]; rfl, fun zero => Char.ext (UInt32.toNat_inj.mp (zero.trans rfl))⟩
  have low : ∀ value : Nat, (0 : UInt8) ≠ UInt8.ofNat (value % 64 + 128) :=
    fun value => ofNat_ne_zero (by omega) (by omega)
  rw [code, String.utf8EncodeChar]
  generalize c.val.toNat = value
  split
  · rename_i ascii
    rw [List.mem_singleton]
    refine ⟨fun same => Nat.eq_zero_of_not_pos fun positive => ?_, fun zero => by rw [zero]; rfl⟩
    exact ofNat_ne_zero positive (by omega) same
  -- All bytes of a longer form have their highest bit set.
  · rename_i longer
    have positive : value ≠ 0 := by omega
    refine ⟨fun member => ?_, fun zero => absurd zero positive⟩
    split at member
    · have first : (0 : UInt8) ≠ UInt8.ofNat (value / 64 % 32 + 192) :=
        ofNat_ne_zero (by omega) (by omega)
      simp only [List.mem_cons, List.not_mem_nil, low, first, or_self] at member
    · split at member
      · have first : (0 : UInt8) ≠ UInt8.ofNat (value / 4096 % 16 + 224) :=
          ofNat_ne_zero (by omega) (by omega)
        simp only [List.mem_cons, List.not_mem_nil, low, first, or_self] at member
      · have first : (0 : UInt8) ≠ UInt8.ofNat (value / 262144 % 8 + 240) :=
          ofNat_ne_zero (by omega) (by omega)
        simp only [List.mem_cons, List.not_mem_nil, low, first, or_self] at member

/-- The bytes of a text hold a zero where the text holds a NUL. -/
theorem zero_mem_textBytes (text : String) : 0 ∈ textBytes text ↔ nul ∈ text.toList := by
  rw [textBytes_eq, ← String.utf8Encode_toList, List.utf8Encode, List.toList_data_toByteArray,
    List.mem_flatMap]
  simp only [zero_mem_encodeChar, exists_eq_right]

/-- A name is written unless it holds a NUL. -/
theorem name_isSome {text : String} : (name text).isSome = true ↔ nul ∉ text.toList := by
  rw [← zero_mem_textBytes, name]
  by_cases zero : 0 ∈ textBytes text <;> simp [zero]

/-- A name is taken back. -/
theorem readName_takes {text : String} {bytes : List UInt8} (written : name text = some bytes) :
    Takes readName bytes text := by
  intro rest
  rw [name] at written
  split at written
  · cases written
  · rename_i plain
    obtain rfl := Option.some.inj written
    have content : ∀ byte ∈ textBytes text, (byte != 0) = true := by
      intro byte member
      have other : byte ≠ 0 := fun zero => plain (by simpa [zero] using member)
      simpa using other
    have taken : (textBytes text ++ 0 :: rest).takeWhile (· != 0) = textBytes text := by
      rw [List.takeWhile_append_of_pos content]
      simp
    rw [List.append_assoc, List.singleton_append, readName]
    simp [taken, ofTextBytes_textBytes]

/-- A text with its length is taken back. -/
theorem readString_takes {text : String} (small : (string text).length < 2147483648) :
    Takes readString (string text) text := by
  intro rest
  have length : (string text).length = (textBytes text).length + 5 := by
    simp [string]
    omega
  have counted := readLength_takes (show (textBytes text).length + 1 < 2147483648 by omega)
    (textBytes text ++ ([0] ++ rest))
  have taken : split (textBytes text).length (textBytes text ++ 0 :: rest) =
      some (textBytes text, 0 :: rest) := split_takes rfl (0 :: rest)
  rw [readString, string]
  simp only [List.append_assoc]
  rw [counted]
  simp [taken, ofTextBytes_textBytes]

/-! ## Options of patterns -/

/-- Options in the order of their characters are in that order. -/
theorem sortOptions_sorted (options : String) :
    sortOptions (sortOptions options) = sortOptions options := by
  have order := @List.pairwise_mergeSort _
    (fun left right : Char => decide (left.toNat ≤ right.toNat))
    (fun _ _ _ first second => by
      simp only [decide_eq_true_eq] at *
      exact Nat.le_trans first second)
    (fun left right => by simp [Nat.le_total]) options.toList
  rw [sortOptions, sortOptions, String.toList_ofList, List.mergeSort_of_pairwise order]

/-- Options hold a NUL in whichever order. -/
theorem nul_mem_sortOptions (options : String) :
    nul ∈ (sortOptions options).toList ↔ nul ∈ options.toList := by
  rw [sortOptions, String.toList_ofList, List.mem_mergeSort]

end Wire

namespace Bson

mutual

/-- A value with the options of every pattern in the order of their characters. -/
def sorted : Bson → Bson
  | .array items => .array (sortedItems items)
  | .document entries => .document (sortedEntries entries)
  | .scopedCode source scope => .scopedCode source (sortedEntries scope)
  | .regex pattern options => .regex pattern (Wire.sortOptions options)
  | other => other

/-- Items with the options of every pattern in order. -/
def sortedItems : List Bson → List Bson
  | [] => []
  | item :: rest => sorted item :: sortedItems rest

/-- Entries with the options of every pattern in order, under the same names. -/
def sortedEntries : List (String × Bson) → List (String × Bson)
  | [] => []
  | (key, value) :: rest => (key, sorted value) :: sortedEntries rest

end

/-- Sorting the options of patterns does not change the names. -/
theorem keys_sortedEntries (entries : List (String × Bson)) :
    Keyed.keys (sortedEntries entries) = Keyed.keys entries := by
  induction entries with
  | nil => rfl
  | cons entry rest ih =>
    rw [sortedEntries]
    exact congrArg (entry.1 :: ·) ih

/-- Entries that keep their names apart are a document as they are. -/
theorem ofPairs_sortedEntries {entries : List (String × Bson)} (apart : Keyed.Distinct entries) :
    Keyed.ofPairs (sortedEntries entries) = sortedEntries entries := by
  refine Keyed.ofPairs_distinct ?_
  rw [Keyed.Distinct, keys_sortedEntries]
  exact apart

end Bson

namespace Wire

/-! ## Values without parts -/

/-- Raw bytes are taken back, also where their length is written twice. -/
theorem readBinary_takes {subtype : UInt8} {content bytes : List UInt8}
    (written : payload (.binary subtype content) = some bytes) (small : bytes.length < 2147483648) :
    Takes readBinary bytes (.binary subtype content) := by
  intro rest
  rw [payload] at written
  split at written
  · rename_i twice
    obtain rfl := Option.some.inj written
    have length : content.length + 4 < 2147483648 := by
      simp at small
      omega
    have counted := readLength_takes length (subtype :: (word 4 content.length ++ content ++ rest))
    have taken : split (content.length + 4) (word 4 content.length ++ content ++ rest) =
        some (word 4 content.length ++ content, rest) := by
      refine split_takes ?_ rest
      simp [Nat.add_comm]
    have inner := readLength_takes (show content.length < 2147483648 by omega) content
    have form :
        word 4 (content.length + 4) ++ [subtype] ++ word 4 content.length ++ content ++ rest =
        word 4 (content.length + 4) ++ (subtype :: (word 4 content.length ++ content ++ rest)) := by
      simp
    rw [form, readBinary, counted]
    dsimp only [Option.bind_eq_bind, Option.bind_some]
    rw [taken]
    dsimp only [Option.bind_some]
    rw [if_pos twice, inner]
    simp
  · rename_i once
    obtain rfl := Option.some.inj written
    have length : content.length < 2147483648 := by
      simp at small
      omega
    have counted := readLength_takes length (subtype :: (content ++ rest))
    have form : word 4 content.length ++ [subtype] ++ content ++ rest =
        word 4 content.length ++ (subtype :: (content ++ rest)) := by
      simp
    rw [form, readBinary, counted]
    dsimp only [Option.bind_eq_bind, Option.bind_some]
    rw [split_takes rfl rest]
    dsimp only [Option.bind_some]
    rw [if_neg once]

/-- A value without parts is taken back, with the options of a pattern in order. -/
theorem readScalar_takes {value : Bson} (simple : value.isSingle = true) {bytes : List UInt8}
    (written : payload value = some bytes) (small : bytes.length < 2147483648) :
    Takes (readScalar value.elementType) bytes value.sorted := by
  intro rest
  cases value with
  | array | document | scopedCode => cases simple
  | null | undefined | minKey | maxKey =>
    simp only [payload, Option.some.injEq] at written
    subst written
    simp only [Bson.sorted]
    rfl
  | boolean value =>
    simp only [payload, Option.some.injEq] at written
    subst written
    cases value <;> simp only [Bson.sorted] <;> rfl
  | int32 value | int64 value | dateTime value | double value | objectId value | decimal value =>
    simp only [payload, Option.some.injEq] at written
    subst written
    simp only [Bson.sorted, Bson.elementType, readScalar, split_takes (length_word ..) rest,
      split_takes (length_field ..) rest, Option.bind_eq_bind, Option.bind_some, ofWord_uint32,
      ofWord_uint64, ofField_objectId, ofField_decimal, Int32.toInt32_toUInt32,
      Int64.toInt64_toUInt64]
  | timestamp time increment =>
    simp only [payload, Option.some.injEq] at written
    subst written
    simp only [Bson.sorted, Bson.elementType, readScalar, List.append_assoc,
      split_takes (length_word 4 increment.toNat) (word 4 time.toNat ++ rest),
      split_takes (length_word 4 time.toNat) rest, Option.bind_eq_bind, Option.bind_some,
      ofWord_uint32]
  | string text | symbol text | code text =>
    simp only [payload, Option.some.injEq] at written
    subst written
    simp only [Bson.sorted, Bson.elementType, readScalar, readString_takes small rest,
      Option.bind_eq_bind, Option.bind_some]
  | reference space id =>
    simp only [payload, Option.some.injEq] at written
    subst written
    have short : (string space).length < 2147483648 := by
      rw [List.length_append] at small
      omega
    simp only [Bson.sorted, Bson.elementType, readScalar, List.append_assoc,
      readString_takes short (field 12 id.value.toNat ++ rest),
      split_takes (length_field 12 id.value.toNat) rest, Option.bind_eq_bind, Option.bind_some,
      ofField_objectId]
  | regex pattern options =>
    rw [payload] at written
    obtain ⟨first, named, written⟩ := Option.bind_eq_some_iff.mp written
    obtain ⟨second, listed, written⟩ := Option.bind_eq_some_iff.mp written
    obtain rfl := Option.some.inj written
    simp only [Bson.sorted, Bson.elementType, readScalar, List.append_assoc,
      readName_takes named (second ++ rest), readName_takes listed rest, Option.bind_eq_bind,
      Option.bind_some, sortOptions_sorted]
  | binary subtype content =>
    have taken := readBinary_takes written small rest
    simpa only [readScalar, Bson.elementType, Bson.sorted] using taken

end EntityMapping.Wire
