import Mathlib.Data.List.Induction
import EntityMapping.ObjectId
import EntityMapping.Text.Blank
import EntityMapping.Text.Integer
/-!
# Reading numbers that were written

The digits of a number are read as the number again: decimal digits with any zeros before them,
behind a sign and between white space, and the hexadecimal digits of an identifier. The decimal
digits of a natural number are those of the standard library.
-/

namespace EntityMapping

namespace Digits

/-- A step that succeeds on every item succeeds on the list of them. -/
theorem mapM_eq_some {α β : Type} {step : α → Option β} {result : α → β} {items : List α}
    (each : ∀ item ∈ items, step item = some (result item)) :
    items.mapM step = some (items.map result) := by
  induction items with
  | nil => rfl
  | cons item rest ih =>
    obtain ⟨first, later⟩ := List.forall_mem_cons.mp each
    rw [List.mapM_cons, first, ih later]
    rfl

/-- One more digit at the end. -/
theorem ofBig_concat (base : Nat) (digits : List Nat) (digit : Nat) :
    ofBig base (digits ++ [digit]) = base * ofBig base digits + digit := by
  simp [ofBig, ofLittle, Nat.add_comm]

/-- A digit character stands for its distance from zero. -/
theorem decimalValue_of_isDigit {c : Char} (digit : c.isDigit = true) :
    decimalValue c = some (c.toNat - '0'.toNat) := by
  rw [Char.isDigit_iff_toNat] at digit
  exact if_pos digit

/-- A run of decimal digits is read as the number it denotes. -/
theorem readDecimal_eq {characters : List Char} (digits : ∀ c ∈ characters, c.isDigit = true) :
    readDecimal characters = some (Nat.ofDigitChars 10 characters 0) := by
  have each : characters.mapM decimalValue = some (characters.map (·.toNat - '0'.toNat)) :=
    mapM_eq_some fun c member => decimalValue_of_isDigit (digits c member)
  have value (characters : List Char) :
      ofBig 10 (characters.map (·.toNat - '0'.toNat)) = Nat.ofDigitChars 10 characters 0 := by
    induction characters using List.reverseRecOn with
    | nil => rfl
    | append_singleton earlier c ih =>
      rw [List.map_append, List.map_singleton, ofBig_concat, ih, Nat.ofDigitChars_append,
        Nat.ofDigitChars_cons, Nat.ofDigitChars_nil]
  rw [readDecimal, each, Option.map_some, value]

/-- The character of a hexadecimal digit stands for the digit. -/
theorem hexValue_hexChar : ∀ digit < 16, hexValue (hexChar digit) = some digit := by
  decide

/-- The hexadecimal digits of a number are read as the number, up to the digits that were kept. -/
theorem readHex_hexText (count value : Nat) :
    readHex count (hexText count value) = some (value % Nat.pow 16 count) := by
  have small : ∀ digit ∈ big 16 count value, digit < 16 := by
    intro digit member
    exact little_lt (by decide) count value digit (List.mem_reverse.mp member)
  have each : (big 16 count value).mapM (hexValue ∘ hexChar) = some ((big 16 count value).map id) :=
    mapM_eq_some fun digit member => hexValue_hexChar digit (small digit member)
  rw [readHex, hexText, String.toList_ofList, List.length_map, if_pos (by simp [big]),
    List.mapM_map, each, List.map_id, Option.map_some, ofBig_big]

end Digits

/-- The text of an identifier is read as the identifier. -/
theorem ObjectId.read_text (id : ObjectId) : ObjectId.read id.text = some id := by
  obtain ⟨value⟩ := id
  rw [read, text, Digits.readHex_hexText, Option.map_some, Nat.mod_eq_of_lt value.isLt, ofNat,
    BitVec.ofNat_toNat, BitVec.setWidth_eq]

namespace Integer

/-- The character of a decimal digit. -/
theorem hexChar_eq_digitChar : ∀ digit < 10, Digits.hexChar digit = digit.digitChar := by
  decide

/-- The digits that are written, before those that were. -/
theorem digitsWithin_eq {bound value : Nat} (enough : value < bound) (shown : List Char) :
    digitsWithin bound value shown = Nat.toDigits 10 value ++ shown := by
  induction bound generalizing value shown with
  | zero => omega
  | succ bound ih =>
    have last := hexChar_eq_digitChar (value % 10) (Nat.mod_lt _ (by decide))
    rw [digitsWithin, last, Nat.toDigits_eq_if (by decide)]
    by_cases single : value < 10
    · rw [if_pos (by omega), if_pos single, Nat.mod_eq_of_lt single]
      rfl
    · rw [if_neg (by omega), if_neg single, ih (by omega), List.append_assoc]
      rfl

/-- The digits that are written are the decimal digits of the number. -/
theorem naturalDigits_eq (value : Nat) : naturalDigits value = Nat.toDigits 10 value := by
  rw [naturalDigits, digitsWithin_eq (Nat.lt_succ_self value), List.append_nil]

/-- A numeral of an integer: its decimal digits, with any zeros before them and with its sign,
where a plus sign may be left out. -/
inductive Numeral : List Char → Int → Prop where
  /-- The digits alone. -/
  | plain (zeros magnitude : Nat) :
    Numeral (List.replicate zeros '0' ++ Nat.toDigits 10 magnitude) magnitude
  /-- A plus sign and the digits. -/
  | plus (zeros magnitude : Nat) :
    Numeral ('+' :: (List.replicate zeros '0' ++ Nat.toDigits 10 magnitude)) magnitude
  /-- A minus sign and the digits. -/
  | minus (zeros magnitude : Nat) :
    Numeral ('-' :: (List.replicate zeros '0' ++ Nat.toDigits 10 magnitude)) (-magnitude)

/-- A text spells an integer: it is a numeral with any white space at the ends. -/
def Spells (text : String) (value : Int) : Prop :=
  ∃ before numeral after, text.toList = before ++ numeral ++ after ∧
    (∀ c ∈ before, Blank.isBlank c = true) ∧ (∀ c ∈ after, Blank.isBlank c = true) ∧
    Numeral numeral value

/-- What is written of an integer is a numeral of it. -/
theorem spells_write (value : Int) : Spells (write value) value := by
  refine ⟨[], (write value).toList, [], by simp, nofun, nofun, ?_⟩
  cases value with
  | ofNat magnitude =>
    rw [write, String.toList_ofList, naturalDigits_eq]
    exact .plain 0 magnitude
  | negSucc magnitude =>
    rw [write, String.toList_ofList, naturalDigits_eq]
    exact .minus 0 (magnitude + 1)

section

variable (zeros magnitude : Nat)

/-- Zeros and digits are digits. -/
theorem isDigit_digits :
    ∀ c ∈ List.replicate zeros '0' ++ Nat.toDigits 10 magnitude, c.isDigit = true := by
  intro c member
  rcases List.mem_append.mp member with zero | digit
  · rw [List.eq_of_mem_replicate zero]
    rfl
  · exact Nat.isDigit_of_mem_toDigits (by decide) (by decide) digit

/-- Digits with zeros before them are read as the number. -/
theorem readNatural_digits :
    readNatural (List.replicate zeros '0' ++ Nat.toDigits 10 magnitude) = some magnitude := by
  have filled : (List.replicate zeros '0' ++ Nat.toDigits 10 magnitude).isEmpty = false := by
    simp [Nat.toDigits_ne_nil]
  rw [readNatural, filled, Digits.readDecimal_eq (isDigit_digits zeros magnitude),
    Nat.ofDigitChars_append, Nat.ofDigitChars_replicate_zero, Nat.mul_zero,
    Nat.ofDigitChars_ten_toDigits]
  rfl

end

/-- A numeral is read as its integer. -/
theorem read_numeral {numeral : List Char} {value : Int} (spells : Numeral numeral value) :
    read numeral = some value := by
  cases spells with
  | plain zeros magnitude =>
    have digits := isDigit_digits zeros magnitude
    have number := readNatural_digits zeros magnitude
    generalize List.replicate zeros '0' ++ Nat.toDigits 10 magnitude = characters at digits number
    unfold read
    split
    · cases digits '-' (by simp)
    · cases digits '+' (by simp)
    · rw [number]
      rfl
  | plus zeros magnitude =>
    rw [read, readNatural_digits]
    rfl
  | minus zeros magnitude =>
    rw [read, readNatural_digits]
    rfl

/-- A numeral holds no white space. -/
theorem isBlank_numeral {numeral : List Char} {value : Int} (spells : Numeral numeral value) :
    ∀ c ∈ numeral, Blank.isBlank c = false := by
  have plain (zeros magnitude : Nat) :
      ∀ c ∈ List.replicate zeros '0' ++ Nat.toDigits 10 magnitude, Blank.isBlank c = false := by
    intro c member
    have low : 48 ≤ c.toNat := (Char.isDigit_iff_toNat.mp (isDigit_digits _ _ c member)).1
    have high : c.toNat ≤ 57 := (Char.isDigit_iff_toNat.mp (isDigit_digits _ _ c member)).2
    simp only [Blank.isBlank, Blank.ranges, List.any_cons, List.any_nil, Bool.or_false,
      Bool.or_eq_false_iff, Bool.and_eq_false_imp, decide_eq_true_eq, decide_eq_false_iff_not,
      Nat.not_le]
    omega
  cases spells with
  | plain zeros magnitude => exact plain zeros magnitude
  | plus zeros magnitude => exact List.forall_mem_cons.mpr ⟨by decide, plain zeros magnitude⟩
  | minus zeros magnitude => exact List.forall_mem_cons.mpr ⟨by decide, plain zeros magnitude⟩

end Integer

/-- White space before anything that holds none is dropped. -/
theorem Blank.dropWhile_before {before core after : List Char}
    (left : ∀ c ∈ before, isBlank c = true) (plain : ∀ c ∈ core, isBlank c = false)
    (filled : core ≠ []) : (before ++ core ++ after).dropWhile isBlank = core ++ after := by
  obtain ⟨c, rest, rfl⟩ := List.exists_cons_of_ne_nil filled
  rw [List.append_assoc, List.dropWhile_append_of_pos left, List.cons_append,
    List.dropWhile_cons_of_neg (by simp [plain c])]

/-- What holds no white space is left when the white space around it is dropped. -/
theorem Blank.trim_between {before core after : List Char}
    (left : ∀ c ∈ before, isBlank c = true) (plain : ∀ c ∈ core, isBlank c = false)
    (right : ∀ c ∈ after, isBlank c = true) (filled : core ≠ []) :
    trim (before ++ core ++ after) = core := by
  have ends : (core ++ after).reverse.dropWhile isBlank = core.reverse := by
    rw [List.reverse_append, ← List.append_nil (after.reverse ++ core.reverse),
      dropWhile_before (by simpa using right) (by simpa using plain) (by simpa using filled),
      List.append_nil]
  rw [trim, dropWhile_before left plain filled, ends, List.reverse_reverse]

/-- A text that spells an integer is read as the integer, once its white space is dropped. -/
theorem Integer.read_trim {text : String} {value : Int} (spells : Spells text value) :
    read (Blank.trim text.toList) = some value := by
  obtain ⟨before, numeral, after, form, left, right, number⟩ := spells
  have filled : numeral ≠ [] := by
    rintro rfl
    cases read_numeral number
  rw [form, Blank.trim_between left (isBlank_numeral number) right filled, read_numeral number]

end EntityMapping
