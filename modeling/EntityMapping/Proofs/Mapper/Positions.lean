import EntityMapping.Model.Declaration
import EntityMapping.Proofs.Mapper.Translation
/-!
# Array positions in paths

Behind a property that holds a list a path may name a position in it, and mean the same as
without. Resolving a path looks through lists before it looks at the next segment, and then no
longer knows that there was one. So a position is passed over below everything but a map: there
it is taken for one of the keys, and what follows is looked up among the parts of a value of the
map.
-/

namespace EntityMapping

namespace Path

/-- The words for a position in an array: a number of sixty-four bits, the place that was matched,
every place, and the places that a filter of some name selects. -/
inductive Position : String → Prop where
  /-- A place by its number. -/
  | number {digits : List Char} {value : Nat} (reads : Integer.readNatural digits = some value)
    (small : value < 18446744073709551616) : Position (String.ofList digits)
  /-- The place that was matched. -/
  | matched : Position "$"
  /-- Every place. -/
  | every : Position "$[]"
  /-- The places of a filter. -/
  | filtered {name : String} (plain : '.' ∉ name.toList) : Position ("$[" ++ name ++ "]")

/-- The characters of a natural number are decimal digits, and there are some. -/
theorem decimal_of_readNatural {digits : List Char} {value : Nat}
    (reads : Integer.readNatural digits = some value) :
    digits ≠ [] ∧ ∀ c ∈ digits, (Digits.decimalValue c).isSome = true := by
  unfold Integer.readNatural at reads
  split at reads
  · cases reads
  · rename_i filled
    refine ⟨by simpa using filled, ?_⟩
    unfold Digits.readDecimal at reads
    obtain ⟨read, each, -⟩ := Option.map_eq_some_iff.mp reads
    clear reads filled
    induction digits generalizing read with
    | nil => simp
    | cons c rest ih =>
      rw [List.mapM_cons] at each
      obtain ⟨first, known, each⟩ := Option.bind_eq_some_iff.mp each
      obtain ⟨others, later, -⟩ := Option.bind_eq_some_iff.mp each
      exact List.forall_mem_cons.mpr ⟨by rw [known]; rfl, ih others later⟩

/-- Every word for a position is taken for one. -/
theorem Position.isPositional {segment : String} (position : Position segment) :
    Path.isPositional segment = true := by
  cases position with
  | matched => rfl
  | every => rfl
  | filtered plain => simp [Path.isPositional]
  | @number digits value reads small =>
    obtain ⟨filled, decimal⟩ := decimal_of_readNatural reads
    obtain ⟨c, rest, rfl⟩ := List.exists_cons_of_ne_nil filled
    have first := decimal c (by simp)
    have unmarked : c ≠ '$' := by
      rintro rfl
      cases first
    have unsigned : c ≠ '+' := by
      rintro rfl
      cases first
    have number : isIndex (c :: rest) = true := by
      simp [isIndex, unsigned, reads, small]
    unfold Path.isPositional
    rw [String.toList_ofList]
    split
    · rename_i same
      exact absurd (List.cons.inj same).1 unmarked
    · rename_i same
      exact absurd (List.cons.inj same).1 unmarked
    · exact number

/-- A word for a position is a single segment. -/
theorem Position.plain {segment : String} (position : Position segment) :
    '.' ∉ segment.toList := by
  cases position with
  | matched => decide
  | every => decide
  | filtered plain => simpa using plain
  | number reads small =>
    intro dotted
    rw [String.toList_ofList] at dotted
    cases (decimal_of_readNatural reads).2 '.' dotted

/-- There is a first segment. -/
theorem splitDots_ne_nil (characters : List Char) : splitDots characters ≠ [] := by
  cases characters with
  | nil => simp [splitDots]
  | cons c rest =>
    rw [splitDots]
    split
    · simp
    · split <;> simp

/-- The segments of a path hold no dots. -/
theorem plain_splitDots {characters word : List Char} (member : word ∈ splitDots characters) :
    '.' ∉ word := by
  induction characters generalizing word with
  | nil =>
    obtain rfl := List.mem_singleton.mp member
    simp
  | cons c rest ih =>
    rw [splitDots] at member
    split at member
    · rcases List.mem_cons.mp member with rfl | later
      · simp
      · exact ih later
    · rename_i other
      split at member
      · rename_i first others split
        rcases List.mem_cons.mp member with rfl | later
        · have before : '.' ∉ first := ih (by simp [split])
          simpa [Ne.symm other] using before
        · exact ih (by simp [split, later])
      · rename_i empty
        exact absurd empty (splitDots_ne_nil rest)

/-- The segments of a path hold no dots. -/
theorem plain_segments {path word : String} (member : word ∈ segments path) :
    '.' ∉ word.toList := by
  obtain ⟨characters, listed, rfl⟩ := List.mem_map.mp member
  rw [String.toList_ofList]
  exact plain_splitDots listed

/-- Some segments from the front of a path are a path of those segments. -/
theorem segments_front {path : String} {front back : List String}
    (split : segments path = front ++ back) (nonempty : front ≠ []) :
    segments (String.intercalate "." front) = front :=
  segments_intercalate nonempty fun _ member =>
    plain_segments (split ▸ List.mem_append_left back member)

/-- A position between the segments of a path gives a path of those segments and the position. -/
theorem Position.segments_placed {segment path : String} (position : Position segment)
    {front back : List String} (split : segments path = front ++ back) :
    segments (String.intercalate "." (front ++ segment :: back)) = front ++ segment :: back := by
  refine segments_intercalate (by simp) fun word member => ?_
  rcases List.mem_append.mp member with first | later
  · exact plain_segments (split ▸ List.mem_append_left back first)
  · rcases List.mem_cons.mp later with rfl | last
    · exact position.plain
    · exact plain_segments (split ▸ List.mem_append_right front last)

end Path

namespace ResolvedPath

/-- The outcome with resolved segments in front. -/
def beyond (before : List String) (path : ResolvedPath) : ResolvedPath :=
  { path with segments := before ++ path.segments }

end ResolvedPath

namespace PathScope

/-- The parts are those of a map exactly for maps and for lists of maps. -/
theorem below_eq_map {type value : FieldType} :
    below type = .map value ↔ type.item = .map value := by
  rw [← below_item]
  have flat : ∀ element, type.item ≠ .list element := by
    intro element
    induction type with
    | list inner ih => exact ih
    | _ => nofun
  cases inner : type.item with
  | list element => exact absurd inner (flat element)
  | _ => simp [below]

end PathScope

namespace Mapper

variable {mapper : Mapper}

/-- A scope goes with the type found last: it is that of the parts of the type, and not that of a
map where no type was found. -/
def ScopeOf : Option FieldType → PathScope → Prop
  | some found, scope => scope = .below found
  | none, scope => ∀ value, scope ≠ .map value

/-- The scope that goes with a type is that of a map exactly for maps and for lists of maps. -/
theorem ScopeOf.map_iff {type : Option FieldType} {scope : PathScope} (goes : ScopeOf type scope)
    {value : FieldType} : scope = .map value ↔ type.map FieldType.item = some (.map value) := by
  cases type with
  | none => simpa using goes value
  | some found =>
    obtain rfl : scope = .below found := goes
    simp [PathScope.below_eq_map]

/-- In the parts of a map every segment is a key. -/
theorem resolveFrom_key (value : FieldType) (type : Option FieldType) (key : String)
    (rest : List String) : mapper.resolveFrom (.map value) type (key :: rest) =
      (mapper.resolveFrom (.below value) (some value) rest).map (.behind key) := rfl

/-- Everywhere else a position is passed over. -/
theorem resolveFrom_position {scope : PathScope} (unmapped : ∀ value, scope ≠ .map value)
    {segment : String} (positional : Path.isPositional segment = true) (type : Option FieldType)
    (rest : List String) : mapper.resolveFrom scope type (segment :: rest) =
      (mapper.resolveFrom scope type rest).map (.behind segment) := by
  cases scope with
  | map value => exact absurd rfl (unmapped value)
  | _ => simp [resolveFrom, positional]

/-- One resolved segment gives one segment, and leads to a scope that goes with the type it was
found at. What follows is resolved from there. At a segment that is not found resolving stops, if
the search for it ends. -/
theorem resolveFrom_cons {scope : PathScope} {type : Option FieldType} (known : ScopeOf type scope)
    (segment : String) :
    (∃ inner found stored, ScopeOf found inner ∧ ∀ rest,
      mapper.resolveFrom scope type (segment :: rest) =
        (mapper.resolveFrom inner found rest).map (.behind stored)) ∨
      ∀ rest, mapper.resolveFrom scope type (segment :: rest) = none ∨
        mapper.resolveFrom scope type (segment :: rest) =
          some ⟨segment :: rest, type, some segment⟩ := by
  by_cases mapped : ∃ value, scope = .map value
  · obtain ⟨value, rfl⟩ := mapped
    exact .inl ⟨.below value, some value, segment, rfl, resolveFrom_key value type segment⟩
  · have unmapped : ∀ value, scope ≠ .map value := fun value same => mapped ⟨value, same⟩
    cases positional : Path.isPositional segment with
    | true =>
      exact .inl ⟨scope, type, segment, known, resolveFrom_position unmapped positional type⟩
    | false =>
      cases scope with
      | map value => exact absurd rfl (unmapped value)
      | nothing => exact .inr fun rest => .inr (by simp [resolveFrom, positional])
      | anything =>
        refine .inl ⟨.anything, none, segment, unmapped, fun rest => ?_⟩
        simp [resolveFrom, positional]
      | entity name =>
        cases found : mapper.findField name segment with
        | none => exact .inr fun rest => .inl (by simp [resolveFrom, positional, found])
        | some field =>
          cases field with
          | none => exact .inr fun rest => .inr (by simp [resolveFrom, positional, found])
          | some field =>
            refine .inl ⟨.below field.type, some field.type, field.documentName, rfl,
              fun rest => ?_⟩
            simp [resolveFrom, positional, found]

/-- A path that is resolved up to some segment goes on from there in one scope, whatever follows:
one that goes with the type its front leads to. -/
theorem resolveFrom_append {scope : PathScope} {type : Option FieldType}
    (known : ScopeOf type scope) {front back : List String} {whole : ResolvedPath}
    (answered : mapper.resolveFrom scope type (front ++ back) = some whole)
    (resolved : whole.unresolved = none) :
    ∃ inner before, mapper.resolveFrom scope type front = some before ∧
      ScopeOf before.type inner ∧
      ∀ rest, mapper.resolveFrom scope type (front ++ rest) =
        (mapper.resolveFrom inner before.type rest).map (.beyond before.segments) := by
  -- Each segment in front leads to a scope that goes with the type found there.
  induction front generalizing scope type whole with
  | nil =>
    refine ⟨scope, ⟨[], type, none⟩, by rw [resolveFrom], known, fun rest => ?_⟩
    exact (Option.map_id_apply).symm
  | cons segment front ih =>
    rcases mapper.resolveFrom_cons known segment with
      ⟨inner, found, stored, next, through⟩ | stopped
    · rw [List.cons_append, through] at answered
      obtain ⟨later, onto, rfl⟩ := Option.map_eq_some_iff.mp answered
      obtain ⟨last, before, reached, goes, onward⟩ := ih next onto resolved
      refine ⟨last, before.behind stored, by rw [through, reached, Option.map_some], goes,
        fun rest => ?_⟩
      rw [List.cons_append, through, onward, Option.map_map]
      rfl
    · rw [List.cons_append] at answered
      rcases stopped (front ++ back) with endless | unknown
      · rw [endless] at answered
        cases answered
      · rw [unknown] at answered
        obtain rfl := Option.some.inj answered
        cases resolved

/-- A path with a position in it, behind a front that is resolved. Where the front does not lead
to a map, or to lists of maps, the position changes nothing: the path is resolved as it is without,
to the same type, and the position stands in the translation as written. Where the front leads to a
map, and as well to a list of maps, the position is taken for a key, and what stands behind it is
resolved from a value of the map on, if that ends. -/
theorem resolvePath_position {segment : String} (position : Path.Position segment)
    {entity path : String} {front back : List String} (split : Path.segments path = front ++ back)
    (nonempty : front ≠ []) {whole : ResolvedPath}
    (answered : mapper.resolvePath? entity path = some whole)
    (resolved : whole.isResolved = true) :
    let placed := mapper.resolvePath? entity (String.intercalate "." (front ++ segment :: back))
    ∃ before, mapper.resolvePath? entity (String.intercalate "." front) = some before ∧
      ((∀ value, before.type.map FieldType.item ≠ some (.map value)) →
        ∃ rest, whole.segments = before.segments ++ rest ∧
          placed = some ⟨before.segments ++ segment :: rest, whole.type, none⟩) ∧
      ∀ value, before.type.map FieldType.item = some (.map value) →
        placed = (mapper.resolveFrom (.below value) (some value) back).map
          (.beyond (before.segments ++ [segment])) := by
  have first := Path.segments_front split nonempty
  have all := position.segments_placed split
  have known : whole.unresolved = none := Option.isNone_iff_eq_none.mp resolved
  have found : mapper.resolveFrom (.entity entity) none (front ++ back) = some whole := by
    rw [← split]
    exact answered
  have start : ScopeOf none (.entity entity) := fun value same => by cases same
  obtain ⟨inner, before, reached, goes, onward⟩ := mapper.resolveFrom_append start found known
  rw [onward back] at found
  obtain ⟨after, onto, rfl⟩ := Option.map_eq_some_iff.mp found
  have placed := onward (segment :: back)
  dsimp only
  rw [resolvePath?, resolvePath?, first, all, placed]
  refine ⟨before, reached, fun unmapped => ?_, fun value mapped => ?_⟩
  · have other : ∀ value, inner ≠ .map value := fun value same =>
      unmapped value (goes.map_iff.mp same)
    refine ⟨after.segments, rfl, ?_⟩
    rw [resolveFrom_position other position.isPositional, onto]
    exact congrArg (fun unresolved => some (ResolvedPath.mk _ _ unresolved)) known
  · obtain rfl := goes.map_iff.mpr mapped
    rw [resolveFrom_key, Option.map_map]
    congr 1
    funext found
    simp [ResolvedPath.beyond, ResolvedPath.behind]

/-- Books with editors, who have a name, and with the ratings of each year by readers. -/
def ratedBooks : MapperPlan :=
  ⟨.standard, [{ EntityModel.blank "Author" with
      fields := [(Field.plain "name" (.scalar .string)).storedAs "n"] },
    { EntityModel.blank "Book" with
      fields := [(Field.plain "editors" (.list (.entity "Author"))).storedAs "eds",
        .plain "ratings" (.list (.map (.scalar .int32)))] }], [], []⟩

/-- Both parts of the theorem at work: the first editor has a name as all editors have, and the
number is a reader in the ratings. -/
theorem resolvePath_position_rated : ∃ mapper named rated, ratedBooks.assemble = .ok mapper ∧
    Path.Position "0" ∧
    mapper.resolvePath? "Book" "editors.name" = some named ∧ named.isResolved = true ∧
    mapper.resolvePath? "Book" "editors.0.name" =
      some ⟨["eds", "0", "n"], some (.scalar .string), none⟩ ∧
    mapper.resolvePath? "Book" "ratings.alice" = some rated ∧ rated.isResolved = true ∧
    mapper.resolvePath? "Book" "ratings.0.alice" =
      (mapper.resolveFrom .nothing (some (.scalar .int32)) ["alice"]).map
        (.beyond ["ratings", "0"]) := by
  obtain ⟨mapper, built⟩ : ∃ mapper, ratedBooks.assemble = .ok mapper := ⟨_, rfl⟩
  have position : Path.Position (String.ofList ['0']) := .number (by decide) (by decide : 0 < _)
  obtain ⟨name, rated, editors, ratings⟩ :
      mapper.resolvePath? "Book" "editors.name" =
        some ⟨["eds", "n"], some (.scalar .string), none⟩ ∧
      mapper.resolvePath? "Book" "ratings.alice" =
        some ⟨["ratings", "alice"], some (.scalar .int32), none⟩ ∧
      mapper.resolvePath? "Book" "editors" =
        some ⟨["eds"], some (.list (.entity "Author")), none⟩ ∧
      mapper.resolvePath? "Book" "ratings" =
        some ⟨["ratings"], some (.list (.map (.scalar .int32))), none⟩ := by
    cases built
    exact ⟨rfl, rfl, rfl, rfl⟩
  obtain ⟨first, reached, passed, -⟩ := @resolvePath_position mapper "0" position "Book"
    "editors.name" ["editors"] ["name"] (by decide) (by simp) _ name rfl
  obtain ⟨second, among, -, keyed⟩ := @resolvePath_position mapper "0" position "Book"
    "ratings.alice" ["ratings"] ["alice"] (by decide) (by simp) _ rated rfl
  rw [String.intercalate_singleton] at reached among
  obtain rfl := Option.some.inj (editors.symm.trans reached)
  obtain rfl := Option.some.inj (ratings.symm.trans among)
  refine ⟨mapper, _, _, built, position, name, rfl, ?_, rated, rfl, ?_⟩
  · obtain ⟨rest, whole, placed⟩ := passed (by simp [FieldType.item])
    obtain rfl : rest = ["n"] := (List.cons.inj whole).2.symm
    exact placed
  · exact keyed (.scalar .int32) (by simp [FieldType.item])

/-- The readers of the first year are not found: the path is resolved without the number, and with
it the name of the reader is no part of a rating. -/
theorem resolvePath_first_ratings : ∃ mapper, ratedBooks.assemble = .ok mapper ∧
    Path.Position "0" ∧
    mapper.resolvePath? "Book" "ratings" =
      some ⟨["ratings"], some (.list (.map (.scalar .int32))), none⟩ ∧
    mapper.resolvePath? "Book" "ratings.alice" =
      some ⟨["ratings", "alice"], some (.scalar .int32), none⟩ ∧
    mapper.resolvePath? "Book" "ratings.0.alice" =
      some ⟨["ratings", "0", "alice"], some (.scalar .int32), some "alice"⟩ := by
  obtain ⟨mapper, built⟩ : ∃ mapper, ratedBooks.assemble = .ok mapper := ⟨_, rfl⟩
  have position : Path.Position (String.ofList ['0']) := .number (by decide) (by decide : 0 < _)
  refine ⟨mapper, built, position, ?_⟩
  cases built
  exact ⟨rfl, rfl, rfl⟩

end Mapper

end EntityMapping
