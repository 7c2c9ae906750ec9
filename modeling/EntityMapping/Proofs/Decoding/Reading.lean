import EntityMapping.Mapper.Operations
import EntityMapping.Proofs.Decoding.Meaning
import EntityMapping.Proofs.Stream.Values
/-!
# Reading gives the meaning

`Reads` says of a decoding step that it takes certain tokens and no more, and
that its outcome and its effect on the session are those of a meaning. The
decoding of a value reads the tokens of the value and gives its meaning, by
every codec and at every depth; so `Mapper.fromDocument` is the meaning of its
document, and later proofs need no stream.
-/

namespace EntityMapping

/-- Before the tokens `taken` and then `left`, a step ends as its meaning does, with the
same effect on the session, and after a success it stands before `left`. -/
def Reads {α : Type} (action : DecodeM α) (taken left : List Token) (meaning : SessionM α) :
    Prop :=
  ∀ position session, ∃ reader,
    perform action ⟨⟨position, taken ++ left⟩, session⟩ =
      ((perform meaning session).1, ⟨reader, (perform meaning session).2⟩) ∧
    ∀ value, (perform meaning session).1 = .ok value →
      reader = ⟨position + taken.length, left⟩

namespace Reads

variable {α β : Type} {taken more left : List Token}

/-- A step that takes nothing and has no effect. -/
theorem pure (value : α) : Reads (Pure.pure value) [] left (Pure.pure value) :=
  fun position _ => ⟨⟨position, left⟩, rfl, fun _ _ => rfl⟩

/-- A failure may leave the reader anywhere. -/
theorem throw (cause : MappingError) :
    Reads (MonadExcept.throw cause : DecodeM α) taken left (MonadExcept.throw cause) := by
  intro position session
  refine ⟨⟨position, taken ++ left⟩, rfl, fun value failed => ?_⟩
  change Except.error cause = _ at failed
  simp at failed

/-- The second step starts where the first one stands. -/
theorem bind {action : DecodeM α} {next : α → DecodeM β} {meaning : SessionM α}
    {meant : α → SessionM β} (first : Reads action taken (more ++ left) meaning)
    (second : ∀ value, Reads (next value) more left (meant value)) :
    Reads (action >>= next) (taken ++ more) left (meaning >>= meant) := by
  intro position session
  obtain ⟨reader, ran, stands⟩ := first position session
  rw [List.append_assoc, perform_bind, perform_bind, ran]
  rcases outcome : perform meaning session with ⟨cause | value, after⟩
  · exact ⟨reader, rfl, fun _ failed => by simp at failed⟩
  · rw [stands value (by rw [outcome])]
    obtain ⟨last, ranNext, standsNext⟩ := second value (position + taken.length) after
    refine ⟨last, ranNext, fun result succeeded => ?_⟩
    rw [standsNext result succeeded, List.length_append, Nat.add_assoc]

/-- A first step that takes nothing. -/
theorem bind_nil {action : DecodeM α} {next : α → DecodeM β} {meaning : SessionM α}
    {meant : α → SessionM β} (first : Reads action [] (taken ++ left) meaning)
    (second : ∀ value, Reads (next value) taken left (meant value)) :
    Reads (action >>= next) taken left (meaning >>= meant) :=
  first.bind second

/-- A last step that takes nothing. -/
theorem bind_last {action : DecodeM α} {next : α → DecodeM β} {meaning : SessionM α}
    {meant : α → SessionM β} (first : Reads action taken left meaning)
    (second : ∀ value, Reads (next value) [] left (meant value)) :
    Reads (action >>= next) taken left (meaning >>= meant) := by
  have both := @bind α β taken [] left action next meaning meant first second
  rwa [List.append_nil] at both

/-- A first step whose result is known. -/
theorem andThen {action : DecodeM α} {next : α → DecodeM β} {value : α} {meaning : SessionM β}
    (first : Reads action taken (more ++ left) (Pure.pure value))
    (second : Reads (next value) more left meaning) :
    Reads (action >>= next) (taken ++ more) left meaning := by
  intro position session
  obtain ⟨reader, ran, stands⟩ := first position session
  obtain ⟨last, ranNext, standsNext⟩ := second (position + taken.length) session
  refine ⟨last, ?_, fun result succeeded => ?_⟩
  · rw [List.append_assoc, perform_bind_ok ran, stands value rfl]
    exact ranNext
  · rw [standsNext result succeeded, List.length_append, Nat.add_assoc]

/-- A first step that takes nothing and whose result is known. -/
theorem lookThen {action : DecodeM α} {next : α → DecodeM β} {value : α} {meaning : SessionM β}
    (first : Reads action [] (taken ++ left) (Pure.pure value))
    (second : Reads (next value) taken left meaning) :
    Reads (action >>= next) taken left meaning :=
  first.andThen second

/-- A first step that fails. -/
theorem failThen {action : DecodeM α} {next : α → DecodeM β} {cause : MappingError}
    (first : Reads action [] (taken ++ left) (MonadExcept.throw cause)) :
    Reads (action >>= next) taken left (MonadExcept.throw cause) := by
  intro position session
  obtain ⟨reader, ran, -⟩ := first position session
  refine ⟨reader, perform_bind_error ran next, fun value failed => ?_⟩
  change Except.error cause = _ at failed
  simp at failed

/-- A function of the result. -/
theorem map {action : DecodeM α} {meaning : SessionM α} (reads : Reads action taken left meaning)
    (change : α → β) : Reads (change <$> action) taken left (change <$> meaning) := by
  rw [map_eq_pure_bind, map_eq_pure_bind]
  exact reads.bind_last fun value => Reads.pure (change value)

/-- A reading step that succeeds. -/
theorem ofRead {action : ReadM α} {value : α}
    (ran : ∀ position, perform action ⟨position, taken ++ left⟩ =
      (.ok value, ⟨position + taken.length, left⟩)) :
    Reads (DecodeM.ofRead action) taken left (Pure.pure value) := by
  intro position session
  refine ⟨⟨position + taken.length, left⟩, ?_, fun _ _ => rfl⟩
  change ((perform action ⟨position, taken ++ left⟩).1.mapError MappingError.document,
    (⟨(perform action ⟨position, taken ++ left⟩).2, session⟩ : DecodeState)) = _
  rw [ran]
  rfl

/-- A reading step that fails. -/
theorem ofRead_error {action : ReadM α} {cause : DocumentError}
    (ran : ∀ position, (perform action ⟨position, taken ++ left⟩).1 = .error cause) :
    Reads (DecodeM.ofRead action) taken left (MonadExcept.throw (.document cause)) := by
  intro position session
  refine ⟨(perform action ⟨position, taken ++ left⟩).2, ?_, fun value failed => ?_⟩
  · change ((perform action ⟨position, taken ++ left⟩).1.mapError MappingError.document,
      (⟨(perform action ⟨position, taken ++ left⟩).2, session⟩ : DecodeState)) = _
    rw [ran]
    rfl
  · change Except.error _ = _ at failed
    simp at failed

/-- A session step takes nothing. -/
theorem ofSession (action : SessionM α) : Reads (DecodeM.ofSession action) [] left action :=
  fun position _ => ⟨⟨position, left⟩, rfl, fun _ _ => rfl⟩

/-- A computation takes nothing. -/
theorem ofExcept (outcome : Except MappingError α) :
    Reads (DecodeM.ofExcept outcome) [] left (SessionM.ofExcept outcome) := by
  cases outcome with
  | ok value => exact Reads.pure value
  | error cause => exact Reads.throw cause

/-- A step that measures the tokens still to come. -/
theorem measured (step : Nat → DecodeM α) {meaning : SessionM α}
    (reads : ∀ bound, (taken ++ left).length < bound → Reads (step bound) taken left meaning) :
    Reads (do step ((← get).reader.rest.length + 1)) taken left meaning := by
  intro position session
  obtain ⟨reader, ran, stands⟩ :=
    reads ((taken ++ left).length + 1) (Nat.lt_succ_self _) position session
  refine ⟨reader, ?_, stands⟩
  rw [perform_bind_ok (perform_get _)]
  exact ran

/-- A step on a reader of its own takes nothing here. -/
theorem detached {action : DecodeM α} {meaning : SessionM α} {inner : Reader}
    (reads : Reads action inner.rest [] meaning) :
    Reads (DecodeM.detached inner action) [] left meaning := by
  intro position session
  refine ⟨⟨position, left⟩, ?_, fun _ _ => rfl⟩
  obtain ⟨reader, ran, -⟩ := reads inner.position session
  rw [List.append_nil] at ran
  change ((perform action ⟨inner, session⟩).1,
    (⟨⟨position, left⟩, (perform action ⟨inner, session⟩).2.session⟩ : DecodeState)) = _
  rw [ran]

end Reads

namespace Decoding

variable {left : List Token} {stored : Bson}

/-- A type that fits passes the check, and nothing is taken. -/
theorem reads_expectType {expected : ElementType} (fits : stored.elementType = expected) :
    Reads (expectType expected) [] (stored.tokens ++ left) (pure ()) := by
  have typed : Reads (DecodeM.ofRead Reader.currentType) [] ([] ++ (stored.tokens ++ left))
      (pure stored.elementType) :=
    Reads.ofRead fun position => Reader.perform_currentType position left stored
  refine typed.lookThen ?_
  rw [if_pos fits]
  exact Reads.pure ()

/-- A type that does not fit is reported. -/
theorem reads_expectType_mismatch {expected : ElementType}
    (differs : stored.elementType ≠ expected) :
    Reads (expectType expected) [] (stored.tokens ++ left)
      (throw (Meaning.mismatch expected stored)) := by
  have typed : Reads (DecodeM.ofRead Reader.currentType) [] ([] ++ (stored.tokens ++ left))
      (pure stored.elementType) :=
    Reads.ofRead fun position => Reader.perform_currentType position left stored
  refine typed.lookThen ?_
  rw [if_neg differs]
  exact Reads.throw _

/-- A scalar is read. -/
theorem reads_scalar (type : ScalarType) (stored : Bson) :
    Reads (readScalar type) stored.tokens left (Meaning.scalar type stored) := by
  have form : readScalar type =
      Value.ofBson <$> DecodeM.ofRead (Reader.readTyped type.elementType) := by
    cases type <;> rfl
  rw [form, Meaning.scalar]
  by_cases fits : stored.elementType = type.elementType
  · have plain : stored.rebuilt = stored := by
      cases stored with
      | array items | document entries => cases type <;> cases fits
      | _ => rfl
    have read : Reads (DecodeM.ofRead (Reader.readTyped type.elementType)) stored.tokens left
        (pure stored) := by
      refine Reads.ofRead fun position => ?_
      rw [Reader.perform_readTyped position left fits, plain]
    rw [if_pos fits]
    exact read.map Value.ofBson
  · have refused : Reads (DecodeM.ofRead (Reader.readTyped type.elementType)) stored.tokens left
        (throw (Meaning.mismatch type.elementType stored)) := by
      refine Reads.ofRead_error fun position => ?_
      rw [Reader.perform_readTyped_mismatch position left fits]
    rw [if_neg fits]
    exact refused.map Value.ofBson

/-- A value that may be null is read. -/
theorem reads_nullable {child : DecodeM Value} {meant : Bson → SessionM Value}
    (reads : Reads child stored.tokens left (meant stored)) :
    Reads (readNullable stored.elementType child) stored.tokens left
      (Meaning.nullable meant stored) := by
  rw [readNullable, Meaning.nullable]
  by_cases isNull : stored.elementType = .null
  · have read : Reads (DecodeM.ofRead Reader.readNull) stored.tokens left (pure ()) :=
      Reads.ofRead fun position => Reader.perform_readNull position left isNull
    rw [if_pos isNull, if_pos isNull]
    exact read.bind_last fun _ => Reads.pure Value.null
  · rw [if_neg isNull, if_neg isNull]
    exact reads

/-- What stands between the begin and the end of a scope is read, with as much fuel as there
are tokens left. -/
theorem reads_enclosed {α β : Type} {inside : Nat → DecodeM α} {meaning : SessionM α}
    {first last : Boundary} {content : List Token} {count : Nat} (finish : α → β)
    (size : count ≤ content.length)
    (reads : ∀ fuel, count < fuel →
      Reads (inside fuel) content (.boundary last :: left) meaning) :
    Reads (do
      DecodeM.ofRead (Reader.expect first)
      let found ← inside ((← get).reader.rest.length + 1)
      DecodeM.ofRead (Reader.expect last)
      pure (finish found))
      (.boundary first :: (content ++ [.boundary last])) left (finish <$> meaning) := by
  have start : Reads (DecodeM.ofRead (Reader.expect first)) [.boundary first]
      ((content ++ [.boundary last]) ++ left) (pure ()) :=
    Reads.ofRead fun position => Reader.perform_expect position _ _
  have shut : Reads (DecodeM.ofRead (Reader.expect last)) [.boundary last] left (pure ()) :=
    Reads.ofRead fun position => Reader.perform_expect position _ _
  refine start.andThen ?_
  refine Reads.measured (fun fuel => inside fuel >>= fun found => do
      DecodeM.ofRead (Reader.expect last)
      pure (finish found)) fun fuel large => ?_
  have enough : count < fuel := by
    simp only [List.length_append] at large
    omega
  rw [map_eq_pure_bind]
  exact (reads fuel enough).bind fun found => shut.bind_last fun _ => Reads.pure (finish found)

/-- The items up to the end of their array are read, given enough fuel. -/
theorem reads_items {child : ElementType → DecodeM Value} {meant : Bson → SessionM Value}
    (each : ∀ stored left, Reads (child stored.elementType) stored.tokens left (meant stored)) :
    ∀ {items : List Bson} {fuel : Nat} (found : List Value), items.length < fuel →
      Reads (readItems child fuel found) (Bson.itemTokens items) (.boundary .endArray :: left)
        ((found ++ ·) <$> items.mapM meant)
  | _, 0, _, enough => by omega
  | [], fuel + 1, found, _ => by
    have look : Reads (DecodeM.ofRead Reader.entryType) []
        ([] ++ .boundary .endArray :: left) (pure none) :=
      Reads.ofRead fun position => Reader.perform_entryType_endArray position left
    have done : Reads (Pure.pure found : DecodeM (List Value)) []
        (.boundary .endArray :: left) ((found ++ ·) <$> List.mapM meant []) := by
      rw [List.mapM_nil, map_pure, List.append_nil]
      exact Reads.pure found
    exact look.lookThen done
  | item :: rest, fuel + 1, found, enough => by
    have look : Reads (DecodeM.ofRead Reader.entryType) []
        ((item.tokens ++ Bson.itemTokens rest) ++ .boundary .endArray :: left)
        (pure (some item.elementType)) := by
      refine Reads.ofRead fun position => ?_
      rw [List.append_assoc]
      exact Reader.perform_entryType_item position _ item
    have later : ∀ value, Reads (readItems child fuel (found ++ [value])) (Bson.itemTokens rest)
        (.boundary .endArray :: left) ((found ++ [value] ++ ·) <$> rest.mapM meant) :=
      fun value => reads_items each (found ++ [value])
        (by rw [List.length_cons] at enough; omega)
    have walk := (each item _).bind later
    have same : (meant item >>= fun value => (found ++ [value] ++ ·) <$> rest.mapM meant) =
        (found ++ ·) <$> (item :: rest).mapM meant := by
      simp only [List.mapM_cons, map_eq_pure_bind, bind_assoc, pure_bind, List.append_assoc,
        List.singleton_append]
    rw [same] at walk
    exact look.lookThen walk

/-- An array is read. -/
theorem reads_array {child : ElementType → DecodeM Value} {meant : Bson → SessionM Value}
    (each : ∀ stored left, Reads (child stored.elementType) stored.tokens left (meant stored))
    (items : List Bson) :
    Reads (readArray child) (Bson.tokens (.array items)) left (Meaning.items meant items) := by
  have walk := @reads_enclosed left _ _ _ _ .startArray .endArray _ _ Value.array
    (Bson.length_le_itemTokens items) fun fuel enough => reads_items each [] enough
  have same : ([] ++ ·) <$> items.mapM meant = items.mapM meant := by
    simp only [List.nil_append, id_map']
  rwa [same] at walk

/-- The entries up to the end of their document are read, given enough fuel. -/
theorem reads_entries {child : ElementType → DecodeM Value} {meant : Bson → SessionM Value}
    (each : ∀ stored left, Reads (child stored.elementType) stored.tokens left (meant stored)) :
    ∀ {entries : List (String × Bson)} {fuel : Nat} (found : Keyed Value),
      entries.length < fuel →
      Reads (readEntries child fuel found) (Bson.entryTokens entries)
        (.boundary .endDocument :: left) (entries.foldlM (Meaning.entry meant) found)
  | _, 0, _, enough => by omega
  | [], fuel + 1, found, _ => by
    have look : Reads (DecodeM.ofRead Reader.entryType) []
        ([] ++ .boundary .endDocument :: left) (pure none) :=
      Reads.ofRead fun position => Reader.perform_entryType_endDocument position left
    exact look.lookThen (Reads.pure found)
  | (key, stored) :: rest, fuel + 1, found, enough => by
    have look : Reads (DecodeM.ofRead Reader.entryType) []
        ((.name key :: (stored.tokens ++ Bson.entryTokens rest)) ++
          .boundary .endDocument :: left) (pure (some stored.elementType)) := by
      refine Reads.ofRead fun position => ?_
      rw [List.cons_append, List.append_assoc]
      exact Reader.perform_entryType_entry position _ key stored
    have named : Reads (DecodeM.ofRead Reader.readName) [.name key]
        ((stored.tokens ++ Bson.entryTokens rest) ++ .boundary .endDocument :: left) (pure key) :=
      Reads.ofRead fun position => Reader.perform_readName position _ key
    have later : ∀ value, Reads (readEntries child fuel (Keyed.insert key value found))
        (Bson.entryTokens rest) (.boundary .endDocument :: left)
        (rest.foldlM (Meaning.entry meant) (Keyed.insert key value found)) :=
      fun value => reads_entries each (Keyed.insert key value found)
        (by rw [List.length_cons] at enough; omega)
    have walk := (each stored _).bind later
    have same : (meant stored >>= fun value =>
        rest.foldlM (Meaning.entry meant) (Keyed.insert key value found)) =
        ((key, stored) :: rest).foldlM (Meaning.entry meant) found := by
      simp only [List.foldlM_cons, Meaning.entry, bind_assoc, pure_bind]
    rw [same] at walk
    exact look.lookThen (named.andThen walk)

/-- A document is read as a map. -/
theorem reads_map {child : ElementType → DecodeM Value} {meant : Bson → SessionM Value}
    (each : ∀ stored left, Reads (child stored.elementType) stored.tokens left (meant stored))
    (entries : List (String × Bson)) :
    Reads (readMap child) (Bson.tokens (.document entries)) left
      (Meaning.entries meant entries) := by
  have walk := @reads_enclosed left _ _ _ _ .startDocument .endDocument _ _ Value.map
    (Bson.length_le_entryTokens entries) fun fuel enough => reads_entries each [] enough
  exact walk

/-- A value that is read for what it is is converted to the type of its field. -/
theorem reads_converted {child : Codec → DecodeM Value} {meant : SessionM Value}
    (model : EntityModel) (field : Field) (entity : Entity)
    (reads : Reads (child .any) stored.tokens left meant) :
    Reads (do
      let raw ← child .any
      match convert field.type raw with
      | .ok value => pure (entity.set field.name value)
      | .error cause => throw (.decoding model.name field.name cause))
      stored.tokens left
      (entity.set field.name <$> do
        let raw ← meant
        SessionM.ofExcept
          ((convert field.type raw).mapError (.decoding model.name field.name))) := by
  rw [map_bind]
  refine reads.bind_last fun raw => ?_
  cases convert field.type raw with
  | ok value => exact Reads.pure (entity.set field.name value)
  | error cause => exact Reads.throw _

/-- The value of a field is read: by its codec, or again from where it starts. -/
theorem reads_field {child : Codec → DecodeM Value} {meant : Codec → Bson → SessionM Value}
    (model : EntityModel) (field : Field) (entity : Entity)
    (each : ∀ codec, Reads (child codec) stored.tokens left (meant codec stored)) :
    Reads (readField child model field stored.elementType entity) stored.tokens left
      (entity.set field.name <$> Meaning.fieldValue meant model field stored) := by
  rw [readField, Meaning.fieldValue]
  by_cases isNull : stored.elementType = .null
  · have read : Reads (DecodeM.ofRead Reader.readNull) stored.tokens left (pure ()) :=
      Reads.ofRead fun position => Reader.perform_readNull position left isNull
    rw [if_pos isNull, if_pos isNull]
    exact read.bind_last fun _ => Reads.pure (entity.set field.name .null)
  rw [if_neg isNull, if_neg isNull]
  intro position session
  have marked : perform DecodeM.mark ⟨⟨position, stored.tokens ++ left⟩, session⟩ =
      (.ok ⟨position, stored.tokens ++ left⟩,
        ⟨⟨position, stored.tokens ++ left⟩, session⟩) := rfl
  rw [perform_bind_ok marked, perform_map]
  cases known : field.resolved with
  | error cause => exact ⟨_, rfl, fun _ failed => by cases failed⟩
  | ok codec =>
    obtain ⟨reader, ran, stands⟩ := each codec position session
    have tried : perform (DecodeM.attempt (child codec))
        ⟨⟨position, stored.tokens ++ left⟩, session⟩ =
        (.ok (perform (meant codec stored) session).1,
          ⟨reader, (perform (meant codec stored) session).2⟩) := by
      change (Except.ok (perform (child codec) _).1, (perform (child codec) _).2) = _
      rw [ran]
    have lifted : perform (DecodeM.ofExcept (.ok codec))
        ⟨⟨position, stored.tokens ++ left⟩, session⟩ =
        (.ok codec, ⟨⟨position, stored.tokens ++ left⟩, session⟩) := rfl
    rw [perform_bind_ok lifted, perform_bind_ok tried,
      perform_bind_ok (SessionM.perform_ofExcept (.ok codec) session),
      perform_bind_ok (SessionM.perform_attempt (meant codec stored) session)]
    rcases outcome : perform (meant codec stored) session with ⟨cause | value, after⟩
    · dsimp only
      by_cases mismatch : cause.isTypeMismatch = true
      · rw [if_pos mismatch, if_pos mismatch]
        have back : perform (DecodeM.reset ⟨position, stored.tokens ++ left⟩) ⟨reader, after⟩ =
            (.ok ⟨⟩, ⟨⟨position, stored.tokens ++ left⟩, after⟩) := rfl
        obtain ⟨last, converted, standsLast⟩ :=
          reads_converted model field entity (each .any) position after
        rw [perform_map] at converted standsLast
        rw [perform_bind_ok back]
        exact ⟨last, converted, standsLast⟩
      · rw [if_neg mismatch, if_neg mismatch]
        exact ⟨_, rfl, fun _ failed => by cases failed⟩
    · refine ⟨reader, rfl, fun _ _ => stands value ?_⟩
      rw [outcome]

/-- The fields up to the end of the document are read, given enough fuel. -/
theorem reads_fields {child : Codec → DecodeM Value} {meant : Codec → Bson → SessionM Value}
    (each : ∀ codec stored left, Reads (child codec) stored.tokens left (meant codec stored))
    (model : EntityModel) :
    ∀ {entries : List (String × Bson)} {fuel : Nat} (entity : Entity), entries.length < fuel →
      Reads (readFields child model fuel entity) (Bson.entryTokens entries)
        (.boundary .endDocument :: left) (entries.foldlM (Meaning.property meant model) entity)
  | _, 0, _, enough => by omega
  | [], fuel + 1, entity, _ => by
    have look : Reads (DecodeM.ofRead Reader.entryType) []
        ([] ++ .boundary .endDocument :: left) (pure none) :=
      Reads.ofRead fun position => Reader.perform_entryType_endDocument position left
    exact look.lookThen (Reads.pure entity)
  | (key, stored) :: rest, fuel + 1, entity, enough => by
    have look : Reads (DecodeM.ofRead Reader.entryType) []
        ((.name key :: (stored.tokens ++ Bson.entryTokens rest)) ++
          .boundary .endDocument :: left) (pure (some stored.elementType)) := by
      refine Reads.ofRead fun position => ?_
      rw [List.cons_append, List.append_assoc]
      exact Reader.perform_entryType_entry position _ key stored
    have named : Reads (DecodeM.ofRead Reader.readName) [.name key]
        ((stored.tokens ++ Bson.entryTokens rest) ++ .boundary .endDocument :: left) (pure key) :=
      Reads.ofRead fun position => Reader.perform_readName position _ key
    have skipped : Reads (DecodeM.ofRead Reader.skipValue) stored.tokens
        (Bson.entryTokens rest ++ .boundary .endDocument :: left) (pure ()) :=
      Reads.ofRead fun position => Reader.perform_skipValue position _ stored
    have later : ∀ entity, Reads (readFields child model fuel entity)
        (Bson.entryTokens rest) (.boundary .endDocument :: left)
        (rest.foldlM (Meaning.property meant model) entity) :=
      fun entity => reads_fields each model entity
        (by rw [List.length_cons] at enough; omega)
    refine look.lookThen (named.andThen ?_)
    rw [List.foldlM_cons, Meaning.property]
    by_cases discriminator : model.activeKey = some key
    · rw [if_pos discriminator, if_pos discriminator, pure_bind]
      exact skipped.andThen (later entity)
    · rw [if_neg discriminator, if_neg discriminator]
      cases model.fieldStoredAs key with
      | none =>
        rw [pure_bind]
        exact skipped.andThen (later entity)
      | some field =>
        exact (reads_field model field entity
          fun codec => each codec stored _).bind later

/-- A document is read as an entity of a model. -/
theorem reads_properties {child : Codec → DecodeM Value}
    {meant : Codec → Bson → SessionM Value}
    (each : ∀ codec stored left, Reads (child codec) stored.tokens left (meant codec stored))
    (model : EntityModel) (entries : List (String × Bson)) :
    Reads (readProperties child model) (Bson.tokens (.document entries)) left
      (Meaning.properties meant model entries) := by
  have walk := @reads_enclosed left _ _ _ _ .startDocument .endDocument _ _ id
    (Bson.length_le_entryTokens entries) fun fuel enough =>
      reads_fields each model (Entity.empty model.name) enough
  rwa [id_map] at walk

/-- What the probe for a text under a key finds in entries. -/
def probed (key : String) (entries : List (String × Bson)) :
    Except DocumentError (Option String) :=
  match Keyed.get? key entries with
  | some (.string value) => .ok (some value)
  | some other => .error (.typeMismatch .string other.elementType)
  | none => .ok none

/-- Given enough fuel, the probe finds what is stored under its key first. -/
theorem perform_probeEntries (key : String) (left : List Token) :
    ∀ (entries : List (String × Bson)) {fuel : Nat} (position : Nat), entries.length < fuel →
      (perform (probeEntries key fuel)
        ⟨position, Bson.entryTokens entries ++ .boundary .endDocument :: left⟩).1 =
      probed key entries
  | _, 0, _, enough => by omega
  | [], fuel + 1, _, _ => rfl
  | (name, stored) :: rest, fuel + 1, position, enough => by
    have look := Reader.perform_entryType_entry position
      (Bson.entryTokens rest ++ .boundary .endDocument :: left) name stored
    rw [Bson.entryTokens, List.cons_append, List.append_assoc, probeEntries,
      perform_bind_ok look]
    dsimp only
    rw [perform_bind_ok (Reader.perform_readName position _ name), probed, Keyed.get?]
    by_cases same : name = key
    · rw [if_pos same, if_pos same, perform_map]
      by_cases text : stored.elementType = .string
      · cases stored <;> cases text
        rfl
      · rw [Reader.perform_readString_mismatch (position + 1) _ text]
        cases stored <;> first | rfl | exact absurd rfl text
    · rw [if_neg same, if_neg same,
        perform_bind_ok (Reader.perform_skipValue (position + 1) _ stored)]
      exact perform_probeEntries key left rest (position + 1 + stored.tokens.length)
        (by rw [List.length_cons] at enough; omega)

/-- The probe finds what the document stores under its key first. -/
theorem perform_probe (key : String) (entries : List (String × Bson)) (position : Nat)
    (left : List Token) :
    (perform (probe key) ⟨position, Bson.tokens (.document entries) ++ left⟩).1 =
      probed key entries := by
  have size := Bson.length_le_entryTokens entries
  rw [Bson.tokens, List.cons_append, List.append_assoc, List.singleton_append, probe,
    perform_bind_ok (Reader.perform_expect position _ .startDocument),
    perform_bind_ok (perform_get _)]
  refine perform_probeEntries key left entries (position + 1) ?_
  rw [List.length_append]
  omega

/-- The model of a document is found, and the reader stays where it is. -/
theorem reads_resolveModel (mapper : Mapper) (declared : EntityModel)
    (entries : List (String × Bson)) (left : List Token) :
    Reads (resolveModel mapper declared) [] (Bson.tokens (.document entries) ++ left)
      (SessionM.ofExcept (modelOfDocument mapper declared entries)) := by
  rw [resolveModel, modelOfDocument]
  cases declared.activeKey with
  | none => exact Reads.pure declared
  | some key =>
    intro position session
    have found := perform_probe key entries position left
    have tried : perform (DecodeM.attempt (DecodeM.ofRead (probe key)))
        ⟨⟨position, Bson.tokens (.document entries) ++ left⟩, session⟩ =
        (.ok ((probed key entries).mapError .document),
          ⟨(perform (probe key)
            ⟨position, Bson.tokens (.document entries) ++ left⟩).2, session⟩) := by
      rw [← found]
      rfl
    have marked : perform DecodeM.mark
        ⟨⟨position, Bson.tokens (.document entries) ++ left⟩, session⟩ =
        (.ok ⟨position, Bson.tokens (.document entries) ++ left⟩,
          ⟨⟨position, Bson.tokens (.document entries) ++ left⟩, session⟩) := rfl
    have back : ∀ reader, perform
        (DecodeM.reset ⟨position, Bson.tokens (.document entries) ++ left⟩)
        ⟨reader, session⟩ =
        (.ok ⟨⟩, ⟨⟨position, Bson.tokens (.document entries) ++ left⟩, session⟩) :=
      fun _ => rfl
    rw [List.nil_append, perform_bind_ok marked, perform_bind_ok tried, perform_bind_ok (back _),
      probed]
    dsimp only
    cases Keyed.get? key entries with
    | none => exact ⟨_, rfl, fun _ _ => rfl⟩
    | some stored =>
      cases stored with
      | string value =>
        dsimp only
        exact Reads.ofExcept (mapper.modelForDiscriminator declared.name value) position session
      | _ => exact ⟨_, rfl, fun _ failed => by cases failed⟩

/-- A document is read as an entity with hooks. -/
theorem reads_withHooks {context : MappingContext} {child : Codec → DecodeM Value}
    {meant : Codec → Bson → SessionM Value}
    (each : ∀ codec stored left, Reads (child codec) stored.tokens left (meant codec stored))
    (declared : EntityModel) (checked : Bool) (entries : List (String × Bson)) :
    Reads (readWithHooks context child declared checked) (Bson.tokens (.document entries)) left
      (Meaning.withHooks context meant declared checked entries) := by
  have whole : Reads (DecodeM.ofRead Reader.readDocument) (Bson.tokens (.document entries))
      ([] ++ left) (pure (Meaning.document entries)) :=
    Reads.ofRead fun position => Reader.perform_readDocument position _ entries
  rw [readWithHooks, ← List.append_nil (Bson.tokens (.document entries))]
  refine whole.andThen ?_
  -- What the hooks see and do does not depend on how the model was found.
  have hooked : ∀ model, Reads (do
      let document ← DecodeM.ofSession (Encoding.runHooks context model .preLoad
        (Entity.empty model.name) (Meaning.document entries))
      let entity ← DecodeM.detached (Reader.ofDocument document) (readProperties child model)
      discard (DecodeM.ofSession (Encoding.runHooks context model .postLoad entity document))
      pure entity) [] left (Meaning.hooked context meant model (Meaning.document entries)) := by
    intro model
    refine (Reads.ofSession _).bind_nil fun changed => ?_
    have inner : Reads (readProperties child model) (Reader.ofDocument changed).rest []
        (Meaning.properties meant model changed) := reads_properties each model changed
    refine inner.detached.bind_nil fun entity => ?_
    exact ((Reads.ofSession _).map _).bind_nil fun _ => Reads.pure entity
  cases checked with
  | true => exact hooked declared
  | false => exact (Reads.ofExcept _).bind_nil hooked

/-- A document is read as an entity declared as a model. -/
theorem reads_entity {context : MappingContext} {child : Codec → DecodeM Value}
    {meant : Codec → Bson → SessionM Value}
    (each : ∀ codec stored left, Reads (child codec) stored.tokens left (meant codec stored))
    (declared : EntityModel) (checked : Bool) (entries : List (String × Bson)) :
    Reads (readEntity context child declared checked) (Bson.tokens (.document entries)) left
      (Meaning.entity context meant declared checked entries) := by
  rw [readEntity, Meaning.entity]
  by_cases hooked : needsHooks context declared = true
  · rw [if_pos hooked, if_pos hooked]
    exact reads_withHooks each declared checked entries
  · rw [if_neg hooked, if_neg hooked]
    cases checked with
    | true => exact reads_properties each declared entries
    | false =>
      refine (reads_resolveModel context.mapper declared entries left).bind_nil fun model => ?_
      by_cases observed : needsHooks context model = true
      · rw [if_pos observed, if_pos observed]
        exact reads_withHooks each model true entries
      · rw [if_neg observed, if_neg observed]
        exact reads_properties each model entries

/-- A value is read for what it is. -/
theorem reads_any {context : MappingContext} {child : Codec → DecodeM Value}
    {meant : Codec → Bson → SessionM Value}
    (each : ∀ codec stored left, Reads (child codec) stored.tokens left (meant codec stored))
    (stored : Bson) :
    Reads (readAny context child) stored.tokens left (Meaning.any context meant stored) := by
  have look : Reads (DecodeM.ofRead Reader.currentType) [] (stored.tokens ++ left)
      (pure stored.elementType) :=
    Reads.ofRead fun position => Reader.perform_currentType position left stored
  refine look.lookThen ?_
  cases stored with
  | array items => exact reads_array (fun stored left => each .any stored left) items
  | document entries =>
    intro position session
    dsimp only [Bson.elementType]
    have marked : perform DecodeM.mark
        ⟨⟨position, Bson.tokens (.document entries) ++ left⟩, session⟩ =
        (.ok ⟨position, Bson.tokens (.document entries) ++ left⟩,
          ⟨⟨position, Bson.tokens (.document entries) ++ left⟩, session⟩) := rfl
    have whole : Reads (DecodeM.ofRead Reader.readDocument) (Bson.tokens (.document entries))
        left (pure (Meaning.document entries)) :=
      Reads.ofRead fun position => Reader.perform_readDocument position _ entries
    obtain ⟨reader, ran, stands⟩ := whole position session
    rw [perform_pure] at ran stands
    rw [perform_bind_ok marked, perform_bind_ok ran, Meaning.any]
    cases recognise context.mapper (Meaning.document entries) with
    | none => exact ⟨reader, rfl, fun _ _ => stands _ rfl⟩
    | some model =>
      have back : perform
          (DecodeM.reset ⟨position, Bson.tokens (.document entries) ++ left⟩)
          ⟨reader, session⟩ =
          (.ok ⟨⟩, ⟨⟨position, Bson.tokens (.document entries) ++ left⟩, session⟩) := rfl
      dsimp only
      rw [perform_bind_ok back]
      exact (reads_entity each model false entries).map Value.ofEntity position session
  | _ =>
    have read : ∀ plain : Bson, plain.rebuilt = plain →
        Reads (DecodeM.ofRead Reader.readValue) plain.tokens left (pure plain) := by
      intro plain same
      refine Reads.ofRead fun position => ?_
      rw [Reader.perform_readValue, same]
    exact (read _ (by simp [Bson.rebuilt])).map Value.ofBson

/-- A value is read by its codec, and the reader stands right behind it. -/
theorem reads_value (context : MappingContext) :
    ∀ (depth : Nat) (codec : Codec) (stored : Bson) (left : List Token),
      Reads (readValue context depth codec) stored.tokens left
        (Meaning.value context depth codec stored)
  | 0, _, _, _ => Reads.throw _
  | depth + 1, .scalar type, stored, _ => reads_scalar type stored
  | depth + 1, .list element, stored, left => by
    rw [readValue, Meaning.value]
    cases stored with
    | array items =>
      refine (reads_expectType rfl).lookThen ?_
      exact reads_array (fun stored left =>
        reads_nullable (reads_value context depth element stored left)) items
    | _ => exact (reads_expectType_mismatch (by simp [Bson.elementType])).failThen
  | depth + 1, .map element, stored, left => by
    rw [readValue, Meaning.value]
    cases stored with
    | document entries =>
      refine (reads_expectType rfl).lookThen ?_
      exact reads_map (fun stored left =>
        reads_nullable (reads_value context depth element stored left)) entries
    | _ => exact (reads_expectType_mismatch (by simp [Bson.elementType])).failThen
  | depth + 1, .entity name, stored, left => by
    rw [readValue, Meaning.value]
    cases stored with
    | document entries =>
      refine (reads_expectType rfl).lookThen ?_
      refine (Reads.ofExcept (context.mapper.model name)).bind_nil fun declared => ?_
      exact (reads_entity (reads_value context depth) declared false entries).map Value.ofEntity
    | _ => exact (reads_expectType_mismatch (by simp [Bson.elementType])).failThen
  | depth + 1, .any, stored, _ => reads_any (reads_value context depth) stored

end Decoding

namespace Mapper

/-- Decoding a document gives the meaning of the document, at a depth that its tokens do
not exceed. -/
theorem fromDocument_eq (mapper : Mapper) (kind : String) (document : Document)
    (session : Session) :
    mapper.fromDocument kind document session =
      perform (do
        let declared ← SessionM.ofExcept (mapper.model kind)
        Meaning.entity mapper.context
          (Meaning.value mapper.context (Decoding.depthFor (Reader.ofDocument document)))
          declared false document) session := by
  rw [fromDocument, perform_bind, SessionM.perform_ofExcept]
  cases mapper.model kind with
  | error cause => rfl
  | ok declared =>
    let depth := Decoding.depthFor (Reader.ofDocument document)
    have reads : Reads (Decoding.readEntity mapper.context
        (Decoding.readValue mapper.context depth) declared false)
        (Bson.tokens (.document document)) [] (Meaning.entity mapper.context
          (Meaning.value mapper.context depth) declared false document) :=
      Decoding.reads_entity (Decoding.reads_value mapper.context depth) declared false document
    obtain ⟨reader, ran, -⟩ := reads 0 session
    rw [List.append_nil] at ran
    have started : perform (Decoding.decode mapper.context declared false)
        ⟨Reader.ofDocument document, session⟩ = _ :=
      (perform_bind_ok (perform_get _) _).trans ran
    change ((perform (Decoding.decode mapper.context declared false)
      ⟨Reader.ofDocument document, session⟩).1, (perform (Decoding.decode mapper.context
        declared false) ⟨Reader.ofDocument document, session⟩).2.session) = _
    rw [started]

/-- Decoding a value by a codec gives its meaning, at a depth that its tokens do not exceed. -/
theorem decodeValue_eq (mapper : Mapper) (codec : Codec) (stored : Bson) (session : Session) :
    (mapper.decodeValue codec (Reader.ofBson stored) session).1 =
      (perform (Meaning.value mapper.context (Decoding.depthFor (Reader.ofBson stored)) codec
        stored) session).1 := by
  have read : ∀ depth, (perform (Decoding.readValue mapper.context depth codec)
      ⟨Reader.ofBson stored, session⟩).1 =
        (perform (Meaning.value mapper.context depth codec stored) session).1 := by
    intro depth
    obtain ⟨reader, ran, -⟩ := Decoding.reads_value mapper.context depth codec stored [] 0 session
    rw [List.append_nil] at ran
    exact congrArg Prod.fst ran
  have unfolded : mapper.decodeValue codec (Reader.ofBson stored) session =
      perform (Decoding.decodeValue mapper.context codec) ⟨Reader.ofBson stored, session⟩ := rfl
  have started : perform (Decoding.decodeValue mapper.context codec)
      ⟨Reader.ofBson stored, session⟩ =
        perform (Decoding.readValue mapper.context (Decoding.depthFor (Reader.ofBson stored)) codec)
          ⟨Reader.ofBson stored, session⟩ := perform_bind_ok (perform_get _) _
  rw [unfolded, started, read]

end Mapper

end EntityMapping
