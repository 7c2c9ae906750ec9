import EntityMapping.Proofs.Bson.Distinct
import EntityMapping.Proofs.Steps
import EntityMapping.Stream.Reader
/-!
# Reading the tokens of a value

What each reading step does where the tokens of a value come next. A value is
read as its rebuilt form and skipped as a whole, and in both cases the reader
stands right behind its last token.
-/

namespace EntityMapping

namespace Bson

/-- The first token of a value tells the type of the value. -/
theorem tokens_head (value : Bson) :
    ∃ token rest, value.tokens = token :: rest ∧ token.elementType? = some value.elementType := by
  cases value <;> exact ⟨_, _, rfl, rfl⟩

/-- A value has a token. -/
theorem tokens_length_pos (value : Bson) : 0 < value.tokens.length := by
  obtain ⟨token, rest, form, -⟩ := value.tokens_head
  rw [form]
  exact Nat.succ_pos _

/-- An array has two tokens more than its items. -/
theorem tokens_length_array (items : List Bson) :
    (tokens (.array items)).length = (itemTokens items).length + 2 := by
  simp [tokens]

/-- A document has two tokens more than its entries. -/
theorem tokens_length_document (entries : List (String × Bson)) :
    (tokens (.document entries)).length = (entryTokens entries).length + 2 := by
  simp [tokens]

/-- Every item has at least one token. -/
theorem length_le_itemTokens (items : List Bson) : items.length ≤ (itemTokens items).length := by
  induction items with
  | nil => simp [itemTokens]
  | cons item rest ih =>
    have positive := item.tokens_length_pos
    rw [itemTokens, List.length_append, List.length_cons]
    omega

/-- Every entry has at least one token. -/
theorem length_le_entryTokens (entries : List (String × Bson)) :
    entries.length ≤ (entryTokens entries).length := by
  induction entries with
  | nil => simp [entryTokens]
  | cons entry rest ih =>
    obtain ⟨key, value⟩ := entry
    rw [entryTokens, List.length_cons, List.length_cons, List.length_append]
    omega

/-- The tokens of an item are among those of its array. -/
theorem tokens_length_item {items : List Bson} {item : Bson} (member : item ∈ items) :
    item.tokens.length < (tokens (.array items)).length := by
  have part : item.tokens.length ≤ (itemTokens items).length := by
    induction items with
    | nil => simp at member
    | cons first rest ih =>
      rw [itemTokens, List.length_append]
      rcases List.mem_cons.mp member with rfl | later
      · omega
      · have bound := ih later
        omega
  rw [tokens_length_array]
  omega

/-- The tokens of an entry's value are among those of its document. -/
theorem tokens_length_entry {entries : List (String × Bson)} {entry : String × Bson}
    (member : entry ∈ entries) :
    entry.2.tokens.length < (tokens (.document entries)).length := by
  have part : entry.2.tokens.length ≤ (entryTokens entries).length := by
    induction entries with
    | nil => simp at member
    | cons first rest ih =>
      obtain ⟨key, value⟩ := first
      rw [entryTokens, List.length_cons, List.length_append]
      rcases List.mem_cons.mp member with rfl | later
      · simp only
        omega
      · have bound := ih later
        omega
  rw [tokens_length_document]
  omega

end Bson

namespace Reader

variable (position : Nat) (left : List Token)

/-- Taking the next token. -/
@[simp] theorem perform_advance (token : Token) :
    perform advance ⟨position, token :: left⟩ = (.ok token, ⟨position + 1, left⟩) := rfl

/-- Looking at the next token. -/
@[simp] theorem perform_peek (token : Token) :
    perform peek ⟨position, token :: left⟩ = (.ok token, ⟨position, token :: left⟩) := rfl

/-- The boundary that was asked for is taken. -/
@[simp] theorem perform_expect (kind : Boundary) :
    perform (expect kind) ⟨position, .boundary kind :: left⟩ =
      (.ok (), ⟨position + 1, left⟩) := by
  rw [expect, perform_bind_ok (perform_peek position left _)]
  simp only [if_pos]
  rfl

/-- A name is taken. -/
@[simp] theorem perform_readName (name : String) :
    perform readName ⟨position, .name name :: left⟩ = (.ok name, ⟨position + 1, left⟩) := rfl

/-- The type of a token that starts a value. -/
theorem perform_typeOf {token : Token} {kind : ElementType} (expected : Expectation)
    (starts : token.elementType? = some kind) (reader : Reader) :
    perform (typeOf expected token) reader = (.ok kind, reader) := by
  rw [typeOf, starts]
  rfl

/-- The type of the value that comes next. -/
theorem perform_currentType (value : Bson) :
    perform currentType ⟨position, value.tokens ++ left⟩ =
      (.ok value.elementType, ⟨position, value.tokens ++ left⟩) := by
  obtain ⟨token, rest, form, starts⟩ := value.tokens_head
  rw [form, List.cons_append, currentType, perform_bind_ok (perform_peek position _ token),
    perform_typeOf .value starts]

/-- No entry is left at the end of a document. -/
@[simp] theorem perform_entryType_endDocument :
    perform entryType ⟨position, .boundary .endDocument :: left⟩ =
      (.ok none, ⟨position, .boundary .endDocument :: left⟩) := rfl

/-- No item is left at the end of an array. -/
@[simp] theorem perform_entryType_endArray :
    perform entryType ⟨position, .boundary .endArray :: left⟩ =
      (.ok none, ⟨position, .boundary .endArray :: left⟩) := rfl

/-- The type of the next item of an array. -/
theorem perform_entryType_item (value : Bson) :
    perform entryType ⟨position, value.tokens ++ left⟩ =
      (.ok (some value.elementType), ⟨position, value.tokens ++ left⟩) := by
  obtain ⟨token, rest, form, starts⟩ := value.tokens_head
  have typed := perform_typeOf .entry starts ⟨position, token :: (rest ++ left)⟩
  rw [form, List.cons_append, entryType, perform_bind_ok (perform_peek position _ token)]
  cases token with
  | boundary kind =>
    cases kind with
    | startDocument | startArray => rw [perform_map, typed]; rfl
    | endDocument | endArray => simp [Token.elementType?] at starts
  | name label => simp [Token.elementType?] at starts
  | scalar content => rw [perform_map, typed]; rfl

/-- The type of the next entry of a document; its name comes first. -/
theorem perform_entryType_entry (name : String) (value : Bson) :
    perform entryType ⟨position, .name name :: (value.tokens ++ left)⟩ =
      (.ok (some value.elementType), ⟨position, .name name :: (value.tokens ++ left)⟩) := by
  obtain ⟨token, rest, form, starts⟩ := value.tokens_head
  rw [form, List.cons_append, entryType, perform_bind_ok (perform_peek position _ (.name name)),
    perform_bind_ok (perform_get _), perform_map, perform_typeOf .value starts]
  rfl

mutual

/-- Enough fuel reads the value whose tokens come next. -/
theorem perform_valueWithin : ∀ (value : Bson) {fuel : Nat} (position : Nat)
    (left : List Token), value.tokens.length ≤ fuel →
    perform (valueWithin fuel) ⟨position, value.tokens ++ left⟩ =
      (.ok value.rebuilt, ⟨position + value.tokens.length, left⟩)
  | value, 0, _, _, enough => by
    have positive := value.tokens_length_pos
    omega
  | .array items, fuel + 1, position, left, enough => by
    have size := Bson.tokens_length_array items
    have inner := perform_itemsWithin items (position + 1) left []
      (show (Bson.itemTokens items).length + 1 ≤ fuel by omega)
    rw [Bson.tokens, List.cons_append, List.append_assoc, valueWithin,
      perform_bind_ok (perform_advance _ _ _), perform_map]
    rw [List.singleton_append, inner, Bson.rebuilt, List.nil_append]
    simp [Except.map]
    omega
  | .document entries, fuel + 1, position, left, enough => by
    have size := Bson.tokens_length_document entries
    have inner := perform_entriesWithin entries (position + 1) left []
      (show (Bson.entryTokens entries).length + 1 ≤ fuel by omega)
    rw [Bson.tokens, List.cons_append, List.append_assoc, valueWithin,
      perform_bind_ok (perform_advance _ _ _), perform_map]
    rw [List.singleton_append, inner, Bson.rebuilt]
    simp [Except.map, Keyed.ofPairs]
    omega
  | .null, _ + 1, _, _, _ | .boolean _, _ + 1, _, _, _ | .int32 _, _ + 1, _, _, _
  | .int64 _, _ + 1, _, _, _ | .double _, _ + 1, _, _, _ | .string _, _ + 1, _, _, _
  | .objectId _, _ + 1, _, _, _ | .dateTime _, _ + 1, _, _, _ | .regex _ _, _ + 1, _, _, _
  | .code _, _ + 1, _, _, _ | .scopedCode _ _, _ + 1, _, _, _ | .binary _ _, _ + 1, _, _, _
  | .timestamp _ _, _ + 1, _, _, _ | .decimal _, _ + 1, _, _, _ | .symbol _, _ + 1, _, _, _
  | .undefined, _ + 1, _, _, _ | .minKey, _ + 1, _, _, _ | .maxKey, _ + 1, _, _, _
  | .reference _ _, _ + 1, _, _, _ => rfl

/-- Enough fuel reads the items that come next up to the end of their array. -/
theorem perform_itemsWithin : ∀ (items : List Bson) {fuel : Nat} (position : Nat)
    (left : List Token) (found : List Bson), (Bson.itemTokens items).length + 1 ≤ fuel →
    perform (itemsWithin fuel found)
        ⟨position, Bson.itemTokens items ++ .boundary .endArray :: left⟩ =
      (.ok (found ++ Bson.rebuiltItems items),
        ⟨position + (Bson.itemTokens items).length + 1, left⟩)
  | _, 0, _, _, _, enough => by omega
  | [], fuel + 1, position, left, found, _ => by
    rw [Bson.rebuiltItems, List.append_nil]
    rfl
  | item :: rest, fuel + 1, position, left, found, enough => by
    have positive := item.tokens_length_pos
    have size : (Bson.itemTokens (item :: rest)).length =
        item.tokens.length + (Bson.itemTokens rest).length := by
      rw [Bson.itemTokens, List.length_append]
    have first := perform_valueWithin item position
      (Bson.itemTokens rest ++ .boundary .endArray :: left)
      (show item.tokens.length ≤ fuel by omega)
    have later := perform_itemsWithin rest (position + item.tokens.length) left
      (found ++ [item.rebuilt]) (show (Bson.itemTokens rest).length + 1 ≤ fuel by omega)
    have walk : perform (valueWithin fuel >>= fun value => itemsWithin fuel (found ++ [value]))
        ⟨position, item.tokens ++ (Bson.itemTokens rest ++ .boundary .endArray :: left)⟩ =
        (.ok (found ++ Bson.rebuiltItems (item :: rest)),
          ⟨position + (Bson.itemTokens (item :: rest)).length + 1, left⟩) := by
      rw [perform_bind_ok first, later, size, Bson.rebuiltItems, List.append_assoc,
        List.singleton_append, Nat.add_assoc position]
    obtain ⟨token, tail, form, starts⟩ := item.tokens_head
    rw [Bson.itemTokens, List.append_assoc, itemsWithin]
    rw [form, List.cons_append] at walk ⊢
    rw [perform_bind_ok (perform_peek position _ token)]
    rw [Bson.itemTokens, form] at walk
    cases token with
    | boundary kind =>
      cases kind with
      | startDocument | startArray => exact walk
      | endDocument | endArray => simp [Token.elementType?] at starts
    | name label => simp [Token.elementType?] at starts
    | scalar content => exact walk

/-- Enough fuel reads the entries that come next up to the end of their document. -/
theorem perform_entriesWithin : ∀ (entries : List (String × Bson)) {fuel : Nat} (position : Nat)
    (left : List Token) (found : Document), (Bson.entryTokens entries).length + 1 ≤ fuel →
    perform (entriesWithin fuel found)
        ⟨position, Bson.entryTokens entries ++ .boundary .endDocument :: left⟩ =
      (.ok (Keyed.overlay found (Bson.rebuiltEntries entries)),
        ⟨position + (Bson.entryTokens entries).length + 1, left⟩)
  | _, 0, _, _, _, enough => by omega
  | [], fuel + 1, position, left, found, _ => rfl
  | (key, value) :: rest, fuel + 1, position, left, found, enough => by
    have positive := value.tokens_length_pos
    have size : (Bson.entryTokens ((key, value) :: rest)).length =
        value.tokens.length + (Bson.entryTokens rest).length + 1 := by
      rw [Bson.entryTokens, List.length_cons, List.length_append]
    have first := perform_valueWithin value (position + 1)
      (Bson.entryTokens rest ++ .boundary .endDocument :: left)
      (show value.tokens.length ≤ fuel by omega)
    have later := perform_entriesWithin rest (position + 1 + value.tokens.length) left
      (Keyed.insert key value.rebuilt found)
      (show (Bson.entryTokens rest).length + 1 ≤ fuel by omega)
    rw [Bson.entryTokens, List.cons_append, List.append_assoc, entriesWithin,
      perform_bind_ok (perform_advance _ _ _)]
    change perform (valueWithin fuel >>= fun value =>
      entriesWithin fuel (Keyed.insert key value found)) _ = _
    rw [perform_bind_ok first, later, Bson.rebuiltEntries]
    simp only [Keyed.overlay, List.foldl_cons, List.length_cons, List.length_append,
      Prod.mk.injEq, Reader.mk.injEq, true_and, and_true]
    omega

end

/-- The value that comes next is read as its rebuilt form. -/
theorem perform_readValue (value : Bson) :
    perform readValue ⟨position, value.tokens ++ left⟩ =
      (.ok value.rebuilt, ⟨position + value.tokens.length, left⟩) := by
  rw [readValue, perform_bind_ok (perform_get _)]
  exact perform_valueWithin value position left (by simp only [List.length_append]; omega)

/-- A typed read takes a value of its type. -/
theorem perform_readTyped {value : Bson} {expected : ElementType}
    (fits : value.elementType = expected) :
    perform (readTyped expected) ⟨position, value.tokens ++ left⟩ =
      (.ok value.rebuilt, ⟨position + value.tokens.length, left⟩) := by
  rw [readTyped, perform_bind_ok (perform_currentType position left value), if_pos fits,
    perform_readValue]

/-- A typed read refuses a value of another type and leaves it in place. -/
theorem perform_readTyped_mismatch {value : Bson} {expected : ElementType}
    (differs : value.elementType ≠ expected) :
    perform (readTyped expected) ⟨position, value.tokens ++ left⟩ =
      (.error (.typeMismatch expected value.elementType),
        ⟨position, value.tokens ++ left⟩) := by
  rw [readTyped, perform_bind_ok (perform_currentType position left value), if_neg differs,
    perform_throw]

/-- A null is read. -/
theorem perform_readNull {value : Bson} (isNull : value.elementType = .null) :
    perform readNull ⟨position, value.tokens ++ left⟩ =
      (.ok (), ⟨position + value.tokens.length, left⟩) := by
  rw [readNull, show discard (readTyped .null) = (fun _ => ()) <$> readTyped .null from rfl,
    perform_map, perform_readTyped position left isNull]
  rfl

/-- A document is read with its entries stored one after the other. -/
theorem perform_readDocument (entries : List (String × Bson)) :
    perform readDocument ⟨position, Bson.tokens (.document entries) ++ left⟩ =
      (.ok (Keyed.ofPairs (Bson.rebuiltEntries entries)),
        ⟨position + (Bson.tokens (.document entries)).length, left⟩) := by
  have typed : (Bson.document entries).elementType = .embeddedDocument := rfl
  rw [readDocument, perform_bind_ok (perform_readTyped position left typed), Bson.rebuilt]
  rfl

/-- A value that is no text is refused. -/
theorem perform_readString_mismatch {value : Bson} (differs : value.elementType ≠ .string) :
    perform readString ⟨position, value.tokens ++ left⟩ =
      (.error (.typeMismatch .string value.elementType),
        ⟨position, value.tokens ++ left⟩) := by
  rw [readString, perform_bind_error (perform_readTyped_mismatch position left differs)]

mutual

/-- Inside an open scope the tokens of a value close all they open. -/
theorem closeScopes_tokens : ∀ (value : Bson) (depth position : Nat) (left : List Token),
    closeScopes (depth + 1) position (value.tokens ++ left) =
      closeScopes (depth + 1) (position + value.tokens.length) left
  | .array items, depth, position, left => by
    have inner := closeScopes_itemTokens items (depth + 1) (position + 1)
      (.boundary .endArray :: left)
    rw [Bson.tokens_length_array, Bson.tokens, List.cons_append, List.append_assoc,
      closeScopes, Token.depthAfter, List.singleton_append, inner, closeScopes, Token.depthAfter,
      Nat.add_right_comm position, Nat.add_assoc position, Nat.add_assoc position]
    rfl
  | .document entries, depth, position, left => by
    have inner := closeScopes_entryTokens entries (depth + 1) (position + 1)
      (.boundary .endDocument :: left)
    rw [Bson.tokens_length_document, Bson.tokens, List.cons_append, List.append_assoc,
      closeScopes, Token.depthAfter, List.singleton_append, inner, closeScopes, Token.depthAfter,
      Nat.add_right_comm position, Nat.add_assoc position, Nat.add_assoc position]
    rfl
  | .null, _, _, _ | .boolean _, _, _, _ | .int32 _, _, _, _ | .int64 _, _, _, _
  | .double _, _, _, _ | .string _, _, _, _ | .objectId _, _, _, _ | .dateTime _, _, _, _
  | .regex _ _, _, _, _ | .code _, _, _, _ | .scopedCode _ _, _, _, _ | .binary _ _, _, _, _
  | .timestamp _ _, _, _, _ | .decimal _, _, _, _ | .symbol _, _, _, _ | .undefined, _, _, _
  | .minKey, _, _, _ | .maxKey, _, _, _ | .reference _ _, _, _, _ => rfl

/-- Inside an open scope the tokens of items close all they open. -/
theorem closeScopes_itemTokens : ∀ (items : List Bson) (depth position : Nat)
    (left : List Token), closeScopes (depth + 1) position (Bson.itemTokens items ++ left) =
      closeScopes (depth + 1) (position + (Bson.itemTokens items).length) left
  | [], _, _, _ => rfl
  | item :: rest, depth, position, left => by
    rw [Bson.itemTokens, List.append_assoc, closeScopes_tokens item, closeScopes_itemTokens rest,
      List.length_append, Nat.add_assoc]

/-- Inside an open scope the tokens of entries close all they open. -/
theorem closeScopes_entryTokens : ∀ (entries : List (String × Bson)) (depth position : Nat)
    (left : List Token), closeScopes (depth + 1) position (Bson.entryTokens entries ++ left) =
      closeScopes (depth + 1) (position + (Bson.entryTokens entries).length) left
  | [], _, _, _ => rfl
  | (key, value) :: rest, depth, position, left => by
    have step : closeScopes (depth + 1) position
        (.name key :: (value.tokens ++ (Bson.entryTokens rest ++ left))) =
        closeScopes (depth + 1) (position + 1)
          (value.tokens ++ (Bson.entryTokens rest ++ left)) := rfl
    rw [Bson.entryTokens, List.cons_append, List.append_assoc, step, closeScopes_tokens value,
      closeScopes_entryTokens rest, List.length_cons, List.length_append]
    congr 1
    omega

end

/-- Closing a scope is consuming tokens until it is closed. -/
theorem perform_close (reader : Reader) :
    perform skipValue.close reader = closeScopes 1 reader.position reader.rest := by
  rw [skipValue.close, perform_bind_ok (perform_get reader)]
  rcases closeScopes 1 reader.position reader.rest with ⟨_ | _, _⟩ <;> rfl

/-- The value that comes next is skipped as a whole. -/
theorem perform_skipValue (value : Bson) :
    perform skipValue ⟨position, value.tokens ++ left⟩ =
      (.ok (), ⟨position + value.tokens.length, left⟩) := by
  cases value with
  | array items =>
    have inner := closeScopes_itemTokens items 0 (position + 1) (.boundary .endArray :: left)
    rw [Bson.tokens_length_array, Bson.tokens, List.cons_append, List.append_assoc,
      List.singleton_append, skipValue, perform_bind_ok (perform_advance _ _ _), perform_close,
      inner, closeScopes, Token.depthAfter, closeScopes, Nat.add_right_comm position,
      Nat.add_assoc position, Nat.add_assoc position]
  | document entries =>
    have inner := closeScopes_entryTokens entries 0 (position + 1)
      (.boundary .endDocument :: left)
    rw [Bson.tokens_length_document, Bson.tokens, List.cons_append, List.append_assoc,
      List.singleton_append, skipValue, perform_bind_ok (perform_advance _ _ _), perform_close,
      inner, closeScopes, Token.depthAfter, closeScopes, Nat.add_right_comm position,
      Nat.add_assoc position, Nat.add_assoc position]
  | _ => rfl

end Reader

end EntityMapping
