import EntityMapping.Proofs.Bson.Subvalues
import EntityMapping.Proofs.Stream.Values
/-!
# Every position of a token stream

A value is laid out flat, and a reader may stand anywhere in it. Each token starts a part of
the value, is the name of an entry whose value starts behind it, or ends a scope. Where a part
starts the reader sees the part and nothing else: reading it, which follows its nesting, and
skipping it, which counts open scopes, end at the same place.
-/

namespace EntityMapping

/-! ## Positions of values -/

/-- A position of a token stream at which a part of the whole value starts. -/
inductive Bson.StartsAt : Bson → Nat → Bson → Prop where
  /-- The whole starts at the front. -/
  | whole (value : Bson) : StartsAt value 0 value
  /-- A part of an item starts behind the start of the array and the items before. -/
  | item {before after : List Bson} {item part : Bson} {start : Nat}
    (starts : StartsAt item start part) :
    StartsAt (.array (before ++ item :: after))
      (1 + (itemTokens before).length + start) part
  /-- A part of an entry starts behind the start of the document, the entries before and
  the name. -/
  | entry {before after : List (String × Bson)} {name : String} {value part : Bson}
    {start : Nat} (starts : StartsAt value start part) :
    StartsAt (.document (before ++ (name, value) :: after))
      (1 + (entryTokens before).length + 1 + start) part

/-- A reader of the tokens of a value, at a position. -/
def Reader.within (whole : Bson) (position : Nat) : Reader :=
  ⟨position, whole.tokens.drop position⟩

namespace Bson

/-- The tokens of items one list after the other. -/
theorem itemTokens_append (before after : List Bson) :
    itemTokens (before ++ after) = itemTokens before ++ itemTokens after := by
  induction before with
  | nil => rfl
  | cons item rest ih => rw [List.cons_append, itemTokens, itemTokens, ih, List.append_assoc]

/-- The tokens of entries one list after the other. -/
theorem entryTokens_append (before after : List (String × Bson)) :
    entryTokens (before ++ after) = entryTokens before ++ entryTokens after := by
  induction before with
  | nil => rfl
  | cons entry rest ih =>
    obtain ⟨name, value⟩ := entry
    rw [List.cons_append, entryTokens, entryTokens, ih, List.cons_append, List.append_assoc]

/-- Where a part starts, its tokens come next. -/
theorem StartsAt.tokens {whole part : Bson} {start : Nat} (starts : whole.StartsAt start part) :
    ∃ before left, whole.tokens = before ++ (part.tokens ++ left) ∧ before.length = start := by
  induction starts with
  | whole value => exact ⟨[], [], by simp, rfl⟩
  | @item before after item part start starts ih =>
    obtain ⟨inner, left, split, count⟩ := ih
    refine ⟨.boundary .startArray :: (itemTokens before ++ inner),
      left ++ (itemTokens after ++ [.boundary .endArray]), ?_, ?_⟩
    · rw [Bson.tokens, itemTokens_append, itemTokens, split]
      simp only [List.append_assoc, List.cons_append]
    · rw [List.length_cons, List.length_append, count]
      omega
  | @entry before after name value part start starts ih =>
    obtain ⟨inner, left, split, count⟩ := ih
    refine ⟨.boundary .startDocument :: (entryTokens before ++ .name name :: inner),
      left ++ (entryTokens after ++ [.boundary .endDocument]), ?_, ?_⟩
    · rw [Bson.tokens, entryTokens_append, entryTokens, split]
      simp only [List.append_assoc, List.cons_append]
    · rw [List.length_cons, List.length_append, List.length_cons, count]
      omega

/-- A reader at the start of a part has the tokens of the part before it, and behind the part
those that are left. -/
theorem StartsAt.stands {whole part : Bson} {start : Nat} (starts : whole.StartsAt start part) :
    ∃ left, Reader.within whole start = ⟨start, part.tokens ++ left⟩ ∧
      Reader.within whole (start + part.tokens.length) = ⟨start + part.tokens.length, left⟩ := by
  obtain ⟨before, left, split, count⟩ := starts.tokens
  refine ⟨left, ?_, ?_⟩
  · rw [Reader.within, split, ← count, List.drop_left]
  · rw [Reader.within, split, ← count, ← List.append_assoc, ← List.length_append, List.drop_left]

/-- Parts of a value that stores no name twice store no name twice. -/
theorem StartsAt.distinct {whole part : Bson} {start : Nat} (starts : whole.StartsAt start part)
    (distinct : whole.Distinct) : part.Distinct := by
  induction starts with
  | whole value => exact distinct
  | item starts ih =>
    rw [Distinct] at distinct
    exact ih (distinct.of_mem (by simp))
  | @entry before after name value part start starts ih =>
    rw [Distinct] at distinct
    have member : (name, value) ∈ before ++ (name, value) :: after := by simp
    exact ih (distinct.2.of_mem member)

/-! ## What stands at a position -/

/-- A token among those of items is one of an item. -/
theorem exists_of_itemTokens {items : List Bson} {offset : Nat} {token : Token}
    (found : (itemTokens items)[offset]? = some token) :
    ∃ before item after inner, items = before ++ item :: after ∧
      offset = (itemTokens before).length + inner ∧ item.tokens[inner]? = some token := by
  induction items generalizing offset with
  | nil => simp [itemTokens] at found
  | cons first rest ih =>
    rw [itemTokens, List.getElem?_append] at found
    split at found
    · exact ⟨[], first, rest, offset, rfl, by simp [itemTokens], found⟩
    · obtain ⟨before, item, after, inner, split, place, here⟩ := ih found
      refine ⟨first :: before, item, after, inner, by rw [split, List.cons_append], ?_, here⟩
      rw [itemTokens, List.length_append]
      omega

/-- A token among those of entries is the name of an entry or one of its value. -/
theorem exists_of_entryTokens {entries : List (String × Bson)} {offset : Nat} {token : Token}
    (found : (entryTokens entries)[offset]? = some token) :
    ∃ before name value after, entries = before ++ (name, value) :: after ∧
      ((offset = (entryTokens before).length ∧ token = .name name) ∨
        ∃ inner, offset = (entryTokens before).length + 1 + inner ∧
          value.tokens[inner]? = some token) := by
  induction entries generalizing offset with
  | nil => simp [entryTokens] at found
  | cons entry rest ih =>
    obtain ⟨key, first⟩ := entry
    rw [entryTokens] at found
    cases offset with
    | zero => exact ⟨[], key, first, rest, rfl, .inl ⟨rfl, (Option.some.inj found).symm⟩⟩
    | succ offset =>
      rw [List.getElem?_cons_succ, List.getElem?_append] at found
      split at found
      · exact ⟨[], key, first, rest, rfl, .inr ⟨offset, by simp [entryTokens, Nat.add_comm], found⟩⟩
      · obtain ⟨before, name, value, after, split, place⟩ := ih found
        refine ⟨(key, first) :: before, name, value, after, by rw [split, List.cons_append], ?_⟩
        rw [entryTokens, List.length_cons, List.length_append]
        refine place.imp (fun ⟨here, named⟩ => ⟨by omega, named⟩) ?_
        rintro ⟨inner, here, stands⟩
        exact ⟨inner, by omega, stands⟩

/-- What a token is in the stream of a value. -/
inductive Stands (whole : Bson) : Nat → Token → Prop where
  /-- A part starts with the token, which shows the type of the part. -/
  | start {position : Nat} {token : Token} {part : Bson} (starts : whole.StartsAt position part)
    (shows : token.elementType? = some part.elementType) : Stands whole position token
  /-- An entry has the token for its name, and its value starts behind. -/
  | name {position : Nat} {label : String} {part : Bson}
    (starts : whole.StartsAt (position + 1) part) : Stands whole position (.name label)
  /-- A scope ends with the token. -/
  | last {position : Nat} {kind : Boundary} (ends : kind = .endDocument ∨ kind = .endArray) :
    Stands whole position (.boundary kind)

/-- What a token is in an item it is in the array. -/
theorem Stands.item {before after : List Bson} {item : Bson} {position : Nat} {token : Token}
    (stands : item.Stands position token) :
    Stands (.array (before ++ item :: after)) (1 + (itemTokens before).length + position) token := by
  cases stands with
  | start starts shows => exact .start starts.item shows
  | name starts => exact .name starts.item
  | last ends => exact .last ends

/-- What a token is in the value of an entry it is in the document. -/
theorem Stands.entry {before after : List (String × Bson)} {name : String} {value : Bson}
    {position : Nat} {token : Token} (stands : value.Stands position token) :
    Stands (.document (before ++ (name, value) :: after))
      (1 + (entryTokens before).length + 1 + position) token := by
  cases stands with
  | start starts shows => exact .start starts.entry shows
  | name starts => exact .name starts.entry
  | last ends => exact .last ends

/-- The first token of a value shows its type. -/
theorem stands_zero {whole : Bson} {token : Token} (found : whole.tokens[0]? = some token) :
    whole.Stands 0 token := by
  obtain ⟨first, rest, form, shows⟩ := whole.tokens_head
  rw [form] at found
  cases found
  exact .start (.whole whole) shows

/-- Every token of a value starts a part, is a name with a part behind it, or ends a scope. -/
theorem stands_of_token {whole : Bson} {position : Nat} {token : Token}
    (found : whole.tokens[position]? = some token) : whole.Stands position token := by
  induction whole using parts_induction generalizing position with
  | single value simple =>
    cases position with
    | zero => exact stands_zero found
    | succ offset => cases value <;> simp_all [Bson.tokens, isSingle]
  | array items ih =>
    cases position with
    | zero => exact stands_zero found
    | succ offset =>
      rw [Bson.tokens, List.getElem?_cons_succ, List.getElem?_append] at found
      split at found
      · obtain ⟨before, item, after, inner, rfl, rfl, here⟩ := exists_of_itemTokens found
        have stands : Stands (.array (before ++ item :: after))
            (1 + (itemTokens before).length + inner) token := (ih item (by simp) here).item
        rwa [Nat.add_assoc, Nat.add_comm] at stands
      · obtain rfl := List.mem_singleton.mp (List.mem_of_getElem? found)
        exact .last (.inr rfl)
  | document entries ih =>
    cases position with
    | zero => exact stands_zero found
    | succ offset =>
      rw [Bson.tokens, List.getElem?_cons_succ, List.getElem?_append] at found
      split at found
      · obtain ⟨before, name, value, after, rfl, ⟨rfl, rfl⟩ | ⟨inner, rfl, here⟩⟩ :=
          exists_of_entryTokens found
        · have starts : StartsAt (.document (before ++ (name, value) :: after))
              (1 + (entryTokens before).length + 1) value := (StartsAt.whole value).entry
          exact .name (by rwa [Nat.add_comm 1] at starts)
        · have stands : Stands (.document (before ++ (name, value) :: after))
              (1 + (entryTokens before).length + 1 + inner) token :=
            (ih (name, value) (by simp) here).entry
          rwa [Nat.add_assoc 1, Nat.add_assoc 1, Nat.add_comm 1] at stands
      · obtain rfl := List.mem_singleton.mp (List.mem_of_getElem? found)
        exact .last (.inl rfl)
  | scopedCode source scope _ =>
    cases position with
    | zero => exact stands_zero found
    | succ offset => simp [Bson.tokens] at found

end Bson

namespace Reader

/-! ## Reading at a position -/

/-- What a reader does where a value starts, and where it stands afterwards: behind the value,
or still in front of it. -/
structure Faithful (value : Bson) (here behind : Reader) : Prop where
  /-- The type of the value is looked up. -/
  currentType : perform currentType here = (.ok value.elementType, here)
  /-- The value is the next entry of its scope. -/
  entryType : perform entryType here = (.ok (some value.elementType), here)
  /-- The value is read as it is. -/
  readValue : perform readValue here = (.ok value, behind)
  /-- The value is skipped. -/
  skipValue : perform skipValue here = (.ok (), behind)
  /-- A read of one type takes the value if it has the type. -/
  readTyped : ∀ expected, perform (readTyped expected) here =
    if value.elementType = expected then (.ok value, behind)
    else (.error (.typeMismatch expected value.elementType), here)
  /-- A document is read as one. -/
  document : ∀ entries, value = .document entries →
    perform readDocument here = (.ok entries, behind)
  /-- Nothing else is read as a document. -/
  noDocument : value.elementType ≠ .embeddedDocument → perform readDocument here =
    (.error (.typeMismatch .embeddedDocument value.elementType), here)
  /-- A text is read as one. -/
  text : ∀ content, value = .string content → perform readString here = (.ok content, behind)
  /-- Nothing else is read as a text. -/
  noText : value.elementType ≠ .string → perform readString here =
    (.error (.typeMismatch .string value.elementType), here)
  /-- A null is read as one. -/
  null : value = .null → perform readNull here = (.ok (), behind)
  /-- Nothing else is read as a null. -/
  noNull : value.elementType ≠ .null → perform readNull here =
    (.error (.typeMismatch .null value.elementType), here)

/-- Where the tokens of a value come next, the reader sees the value and nothing else. -/
theorem faithful_tokens {value : Bson} (distinct : value.Distinct) (position : Nat)
    (left : List Token) :
    Faithful value ⟨position, value.tokens ++ left⟩ ⟨position + value.tokens.length, left⟩ where
  currentType := perform_currentType position left value
  entryType := perform_entryType_item position left value
  readValue := by rw [perform_readValue, Bson.rebuilt_distinct distinct]
  skipValue := perform_skipValue position left value
  readTyped expected := by
    split
    · rename_i fits
      rw [perform_readTyped position left fits, Bson.rebuilt_distinct distinct]
    · rename_i differs
      exact perform_readTyped_mismatch position left differs
  document entries same := by
    obtain rfl := same
    have stored := Bson.rebuilt_distinct distinct
    rw [Bson.rebuilt] at stored
    rw [perform_readDocument, Bson.document.inj stored]
  noDocument differs := by
    rw [readDocument, perform_bind_error (perform_readTyped_mismatch position left differs)]
  text content same := by
    obtain rfl := same
    rfl
  noText differs := perform_readString_mismatch position left differs
  null same := perform_readNull position left (by rw [same]; rfl)
  noNull differs := by
    rw [readNull, show discard (Reader.readTyped .null) = (fun _ => ()) <$> Reader.readTyped .null
      from rfl, perform_map, perform_readTyped_mismatch position left differs]
    rfl

/-- The type of the next entry, where its name stands in a stream. -/
theorem perform_entryType_name {whole part : Bson} {position : Nat} {name : String}
    (found : whole.tokens[position]? = some (.name name))
    (starts : whole.StartsAt (position + 1) part) :
    perform entryType (within whole position) =
      (.ok (some part.elementType), within whole position) := by
  obtain ⟨left, behind, -⟩ := starts.stands
  obtain ⟨small, same⟩ := List.getElem?_eq_some_iff.mp found
  rw [within, List.drop_eq_getElem_cons small, same, (Reader.mk.inj behind).2,
    perform_entryType_entry]

/-- No entry is left where a scope ends in a stream. -/
theorem perform_entryType_last {whole : Bson} {position : Nat} {kind : Boundary}
    (found : whole.tokens[position]? = some (.boundary kind))
    (ends : kind = .endDocument ∨ kind = .endArray) :
    perform entryType (within whole position) = (.ok none, within whole position) := by
  obtain ⟨small, same⟩ := List.getElem?_eq_some_iff.mp found
  rw [within, List.drop_eq_getElem_cons small, same]
  rcases ends with rfl | rfl
  · exact perform_entryType_endDocument ..
  · exact perform_entryType_endArray ..

/-- A reader made of a value stands at the front of its stream. Wherever a part of the value
starts in the stream, a reader sees the part and nothing else. A token with a type starts such a
part; at a name the reader sees the type of the part behind it, and at the end of a scope that no
entry is left. -/
theorem faithful_everywhere {whole : Bson} (distinct : whole.Distinct) :
    ofBson whole = within whole 0 ∧
    (∀ start part, whole.StartsAt start part →
      Faithful part (within whole start) (within whole (start + part.tokens.length))) ∧
    ∀ position token, whole.tokens[position]? = some token →
      (∀ type, token.elementType? = some type →
        ∃ part, whole.StartsAt position part ∧ part.elementType = type) ∧
      (∀ name, token = .name name → ∃ part, whole.StartsAt (position + 1) part ∧
        perform entryType (within whole position) =
          (.ok (some part.elementType), within whole position)) ∧
      ∀ kind, token = .boundary kind → kind = .endDocument ∨ kind = .endArray →
        perform entryType (within whole position) = (.ok none, within whole position) := by
  refine ⟨rfl, ?_, ?_⟩
  · intro start part starts
    obtain ⟨left, here, behind⟩ := starts.stands
    rw [here, behind]
    exact faithful_tokens (starts.distinct distinct) start left
  · intro position token found
    refine ⟨fun type shows => ?_, fun name same => ?_, fun kind same ends => ?_⟩
    · cases Bson.stands_of_token found with
      | start starts own => exact ⟨_, starts, Option.some.inj (own.symm.trans shows)⟩
      | name starts => cases shows
      | last ends => rcases ends with rfl | rfl <;> cases shows
    · subst same
      cases Bson.stands_of_token found with
      | start starts own => cases own
      | name starts => exact ⟨_, starts, perform_entryType_name found starts⟩
    · subst same
      exact perform_entryType_last found ends

/-- A document with a document in an array in it. -/
def nestedTags : Bson :=
  .document [("tags", .array [.int32 1, .document [("label", .string "x")]]), ("none", .null)]

/-- The inner document is read and skipped in the middle of the stream, the type of its text is
seen at the name, and its end is seen as one. -/
theorem faithful_everywhere_nested : nestedTags.Distinct ∧
    nestedTags.StartsAt 4 (.document [("label", .string "x")]) ∧
    Faithful (.document [("label", .string "x")]) (within nestedTags 4) (within nestedTags 8) ∧
    nestedTags.tokens[5]? = some (.name "label") ∧
    perform entryType (within nestedTags 5) = (.ok (some .string), within nestedTags 5) ∧
    nestedTags.tokens[7]? = some (.boundary .endDocument) ∧
    perform entryType (within nestedTags 7) = (.ok none, within nestedTags 7) := by
  have distinct : nestedTags.Distinct := by
    simp [nestedTags, Bson.Distinct, Bson.EntriesDistinct, Bson.ItemsDistinct, Keyed.Distinct,
      Keyed.keys]
  have starts : nestedTags.StartsAt 4 (.document [("label", .string "x")]) :=
    @Bson.StartsAt.entry [] [("none", .null)] "tags" _ _ _
      (@Bson.StartsAt.item [.int32 1] [] _ _ _ (.whole _))
  obtain ⟨-, parts, others⟩ := faithful_everywhere distinct
  obtain ⟨-, named, -⟩ := others 5 (.name "label") rfl
  obtain ⟨part, behind, seen⟩ := named "label" rfl
  obtain ⟨-, -, ended⟩ := others 7 (.boundary .endDocument) rfl
  have same : part.elementType = .string := by
    have read := (parts _ _ behind).currentType
    exact Except.ok.inj (congrArg Prod.fst read).symm
  rw [same] at seen
  exact ⟨distinct, starts, parts _ _ starts, rfl, seen, rfl, ended _ rfl (.inl rfl)⟩

end Reader

end EntityMapping
