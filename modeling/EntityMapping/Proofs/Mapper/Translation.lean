import EntityMapping.Mapper.Path
import EntityMapping.Proofs.Encoding.Success
/-!
# Paths of declared properties

A path is declared for a model when each of its segments names a property of the entity, or is a
key of the map, that the segments before it lead to; lists are passed through. `Mapper.Leads` says
so by the types of fields alone. Such a path is resolved as a whole, to the declared type of its
last place, and the names in its translation can be put together with dots and taken apart again.
-/

namespace EntityMapping

namespace Path

/-- A word before a dot is a segment. -/
theorem splitDots_append {word : List Char} (plain : '.' ∉ word) (rest : List Char) :
    splitDots (word ++ '.' :: rest) = word :: splitDots rest := by
  induction word with
  | nil => rw [List.nil_append, splitDots, if_pos rfl]
  | cons c word ih =>
    have parts : '.' ≠ c ∧ '.' ∉ word := by simpa using plain
    rw [List.cons_append, splitDots, if_neg parts.1.symm, ih parts.2]

/-- A word without a dot is one segment. -/
theorem splitDots_plain {word : List Char} (plain : '.' ∉ word) : splitDots word = [word] := by
  induction word with
  | nil => rfl
  | cons c word ih =>
    have parts : '.' ≠ c ∧ '.' ∉ word := by simpa using plain
    rw [splitDots, if_neg parts.1.symm, ih parts.2]

/-- Words without dots are the segments of the path that dots make of them. -/
theorem segments_intercalate {words : List String} (nonempty : words ≠ [])
    (plain : ∀ word ∈ words, '.' ∉ word.toList) :
    segments (String.intercalate "." words) = words := by
  have split : ∀ words : List String, words ≠ [] → (∀ word ∈ words, '.' ∉ word.toList) →
      splitDots (List.intercalate ['.'] (words.map String.toList)) = words.map String.toList := by
    intro words
    induction words with
    | nil => exact fun nonempty => absurd rfl nonempty
    | cons word rest ih =>
      intro _ plain
      obtain ⟨first, others⟩ := List.forall_mem_cons.mp plain
      cases rest with
      | nil => simpa using splitDots_plain first
      | cons next rest =>
        have later := ih (by simp) others
        rw [List.map_cons, List.map_cons, List.intercalate_cons_cons, List.append_assoc,
          List.singleton_append, splitDots_append first]
        rw [List.map_cons] at later
        rw [later]
  rw [segments, String.toList_intercalate]
  change (splitDots (List.intercalate ['.'] _)).map String.ofList = words
  rw [split words nonempty plain, List.map_map]
  simp [Function.comp_def]

end Path

/-- The type of what lists of a type hold in the end. -/
def FieldType.item : FieldType → FieldType
  | .list element => item element
  | type => type

/-- Lists are passed through. -/
theorem PathScope.below_item (type : FieldType) : below type.item = below type := by
  induction type with
  | list element ih => exact ih
  | _ => rfl

/-- Where a value stands. -/
inductive Place where
  /-- At the top, as an entity of a kind. -/
  | top (kind : String)
  /-- In a field of an entity. -/
  | property (field : Field)
  /-- In a map, under a key. -/
  | entry (type : FieldType)

namespace Place

/-- The declared type at a place. -/
def type : Place → FieldType
  | top kind => .entity kind
  | property field => field.type
  | entry type => type

/-- Whether a value is written where it stands: a property may be left out, and nothing else. -/
def isWritten (options : Options) (value : Value) : Place → Bool
  | property field => field.isWritten value options
  | _ => true

end Place

namespace Mapper

variable {mapper : Mapper}

/-- The segments that lead from a place to another by the types declared there: properties of
entities and keys of maps. Nothing is declared below values of any type. -/
inductive Leads (mapper : Mapper) : Place → List String → Place → Prop where
  /-- No segment leads nowhere else. -/
  | here (place : Place) : Leads mapper place [] place
  /-- A property of an entity. -/
  | property {place last : Place} {kind : String} {model : EntityModel} {field : Field}
    {path : List String} (inside : place.type.item = .entity kind)
    (found : mapper.model? kind = some model) (declared : field ∈ model.fields)
    (onward : Leads mapper (.property field) path last) :
    Leads mapper place (field.name :: path) last
  /-- An entry of a map. -/
  | entry {place last : Place} {value : FieldType} {path : List String}
    (inside : place.type.item = .map value) (key : String)
    (onward : Leads mapper (.entry value) path last) : Leads mapper place (key :: path) last

/-- A path leads where its other segments lead from the place that its first one leads to. -/
theorem leads_cons {place last : Place} {segment : String} {path : List String} :
    mapper.Leads place (segment :: path) last ↔
      ∃ next, mapper.Leads place [segment] next ∧ mapper.Leads next path last := by
  constructor
  · intro leads
    cases leads with
    | property inside found declared onward =>
      exact ⟨_, .property inside found declared (.here _), onward⟩
    | entry inside _ onward => exact ⟨_, .entry inside segment (.here _), onward⟩
  · rintro ⟨next, leads, onward⟩
    cases leads with
    | property inside found declared here =>
      cases here
      exact .property inside found declared onward
    | entry inside _ here =>
      cases here
      exact .entry inside segment onward

/-- One segment leads to a property that is declared, or to the entries of a map. -/
theorem leads_single {place next : Place} {segment : String} :
    mapper.Leads place [segment] next ↔
      (∃ kind model field, place.type.item = .entity kind ∧ mapper.model? kind = some model ∧
        field ∈ model.fields ∧ field.name = segment ∧ next = .property field) ∨
      ∃ value, place.type.item = .map value ∧ next = .entry value := by
  constructor
  · intro leads
    cases leads with
    | property inside found declared here =>
      cases here
      exact .inl ⟨_, _, _, inside, found, declared, rfl, rfl⟩
    | entry inside _ here =>
      cases here
      exact .inr ⟨_, inside, rfl⟩
  · rintro (⟨kind, model, field, inside, found, declared, rfl, rfl⟩ | ⟨value, inside, rfl⟩)
    · exact .property inside found declared (.here _)
    · exact .entry inside segment (.here _)

/-- The names in a mapper can stand in paths. -/
structure Nameable (mapper : Mapper) : Prop where
  /-- No model has two fields of one property. -/
  apart : mapper.PropertiesApart
  /-- The names of properties hold no dot and are no array positions. -/
  named : ∀ model ∈ mapper.models, ∀ field ∈ model.fields,
    '.' ∉ field.name.toList ∧ Path.isPositional field.name = false
  /-- The keys that properties are stored under hold no dot. -/
  stored : ∀ model ∈ mapper.models, ∀ field ∈ model.fields, '.' ∉ field.documentName.toList

namespace Nameable

variable {place : Place} {kind : String} {model : EntityModel} {field : Field}

/-- A property of an entity is resolved to its field, even where its name is also the key of
another one. No subtype is looked at. -/
theorem resolveFrom_property (nameable : mapper.Nameable)
    (inside : place.type.item = .entity kind) (found : mapper.model? kind = some model)
    (declared : field ∈ model.fields) (type : Option FieldType) (rest : List String) :
    mapper.resolveFrom (.below place.type) type (field.name :: rest) =
      (mapper.resolveFrom (.below field.type) (some field.type) rest).map
        (.behind field.documentName) := by
  have member := (model?_some found).1
  have first : model.field field.name = some field := by
    rw [EntityModel.field, find?_of_nodup (nameable.apart model member) declared]
  have located : mapper.findField kind field.name = some (some field) := by
    rw [findField, found]
    dsimp only
    rw [first]
  have named := (nameable.named model member field declared).2
  rw [← PathScope.below_item, inside]
  simp [PathScope.below, resolveFrom, named, located]

end Nameable

/-- A key of a map is resolved to itself. -/
theorem resolveFrom_entry {place : Place} {value : FieldType}
    (inside : place.type.item = .map value) (type : Option FieldType) (key : String)
    (rest : List String) : mapper.resolveFrom (.below place.type) type (key :: rest) =
      (mapper.resolveFrom (.below value) (some value) rest).map (.behind key) := by
  rw [← PathScope.below_item, inside]
  rfl

/-- A declared path is resolved as a whole, to the type of its last place. Its translation has as
many segments, and no dots in them where the path has none in its own. -/
theorem Leads.resolved (nameable : mapper.Nameable) {place last : Place} {path : List String}
    (leads : mapper.Leads place path last) (type : Option FieldType) :
    ∃ resolved, mapper.resolveFrom (.below place.type) type path = some resolved ∧
      resolved.unresolved = none ∧
      (type = some place.type ∨ path ≠ [] → resolved.type = some last.type) ∧
      resolved.segments.length = path.length ∧
      ((∀ segment ∈ path, '.' ∉ segment.toList) →
        ∀ segment ∈ resolved.segments, '.' ∉ segment.toList) := by
  induction leads generalizing type with
  | here place =>
    refine ⟨⟨[], type, none⟩, by rw [resolveFrom], rfl, fun known => ?_, rfl, id⟩
    exact known.resolve_right fun nonempty => nonempty rfl
  | @property place last kind model field path inside found declared onward ih =>
    obtain ⟨resolved, known, whole, typed, long, plain⟩ := ih (some field.type)
    refine ⟨resolved.behind field.documentName, ?_, whole, fun _ => typed (.inl rfl),
      congrArg Nat.succ long, fun plainly => ?_⟩
    · have located : mapper.resolveFrom (.below field.type) (some field.type) path =
          some resolved := known
      rw [nameable.resolveFrom_property inside found declared, located, Option.map_some]
    · refine List.forall_mem_cons.mpr ⟨?_, plain (List.forall_mem_cons.mp plainly).2⟩
      exact nameable.stored model (model?_some found).1 field declared
  | @entry place last value path inside key onward ih =>
    obtain ⟨resolved, known, whole, typed, long, plain⟩ := ih (some value)
    refine ⟨resolved.behind key, ?_, whole, fun _ => typed (.inl rfl), congrArg Nat.succ long,
      fun plainly => ?_⟩
    · have located : mapper.resolveFrom (.below value) (some value) path = some resolved := known
      rw [resolveFrom_entry inside, located, Option.map_some]
    · obtain ⟨first, others⟩ := List.forall_mem_cons.mp plainly
      exact List.forall_mem_cons.mpr ⟨first, plain others⟩

end Mapper

end EntityMapping
