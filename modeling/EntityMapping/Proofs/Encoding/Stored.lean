import EntityMapping.Encoding.Basic
import EntityMapping.Proofs.Steps
import EntityMapping.Proofs.Value.Induction
/-!
# How values are stored

Encoding feeds a value to a writer, event by event. Its stored form is said here
without the writer: by recursion over the value, with hooks as the only steps that
have an effect. An entity is stored by putting its properties into a document one
after the other, under the keys of its model.
-/

namespace EntityMapping

/-- A property ready to be stored: its value, and its stored form by a codec. -/
abbrev PropertyForm := Value × (Codec → SessionM Bson)

namespace Stored

/-- The stored form of a value without parts. -/
def plain (value : Value) (codec : Codec) : SessionM Bson :=
  let found : Option Bson :=
    match codec with
    | .scalar type => Encoding.scalar? type value
    | .any => Encoding.plain? value
    | _ => none
  match found with
  | some content => pure content
  | none => throw (.unexpectedValue codec.fieldType value.kindName)

/-- A null is stored as it is, whatever its codec; any other value in its form. -/
def orNull (value : Value) (form : SessionM Bson) : SessionM Bson :=
  if value.isNull then pure .null else form

/-- What is stored for a property; null for one without a value. -/
def content (model : EntityModel) (field : Field) : Option PropertyForm → SessionM Bson
  | none => pure .null
  | some (.null, _) => pure .null
  | some (_, form) => do
    let codec ← SessionM.ofExcept field.resolved
    tryCatch (form codec) fun cause => throw (.encoding model.name field.name cause)

/-- The document with one more field, if the field is to be written at all. -/
def property (options : Options) (model : EntityModel) (forms : Keyed PropertyForm)
    (document : Document) (field : Field) : SessionM Document :=
  let form := Keyed.get? field.name forms
  if field.isWritten ((form.map Prod.fst).getD .null) options then do
    let stored ← content model field form
    pure (Keyed.insert field.documentName stored document)
  else pure document

/-- The document with the discriminator, if the model uses one. -/
def marked (model : EntityModel) (document : Document) : Document :=
  match model.activeKey with
  | some key => Keyed.insert key (.string model.discriminator) document
  | none => document

/-- The document of an entity over a document to start with, without hooks. -/
def entries (options : Options) (model : EntityModel) (forms : Keyed PropertyForm)
    (start : Document) : SessionM Document := do
  let document ← model.idField.toList.foldlM (property options model forms) start
  (model.fields.filter fun field => !field.isId).foldlM (property options model forms)
    (marked model document)

/-- The document of an entity of a model. -/
def ofModel (context : MappingContext) (model : EntityModel) (entity : Entity)
    (forms : Keyed PropertyForm) : SessionM Document :=
  if model.hasPersistHooks || context.mapper.hasInterceptors then do
    let start ← Encoding.runHooks context model .prePersist entity []
    let document ← entries context.mapper.options model forms start
    Encoding.runHooks context model .postPersist entity document
  else entries context.mapper.options model forms []

/-- The document of an entity declared as a model. -/
def entity (context : MappingContext) (declared : EntityModel) (subject : Entity)
    (forms : Keyed PropertyForm) : SessionM Document := do
  let model ← SessionM.ofExcept (Encoding.modelFor context.mapper declared subject.kind)
  ofModel context model subject forms

mutual

/-- The stored form of a value by a codec. -/
def value (context : MappingContext) : Value → Codec → SessionM Bson
  | .array values, codec =>
    match codec with
    | .list element => Bson.array <$> items context values element
    | .any => Bson.array <$> items context values .any
    | other => throw (.unexpectedValue other.fieldType (Value.array values).kindName)
  | .map values, codec =>
    match codec with
    | .map element => Bson.document <$> named context values element []
    | .any => Bson.document <$> named context values .any []
    | other => throw (.unexpectedValue other.fieldType (Value.map values).kindName)
  | .entity kind properties, codec =>
    match codec with
    | .entity name => do
      let declared ← SessionM.ofExcept (context.mapper.model name)
      Bson.document <$> entity context declared ⟨kind, properties⟩ (forms context properties)
    | .any => do
      let declared ← SessionM.ofExcept (context.mapper.model kind)
      Bson.document <$> entity context declared ⟨kind, properties⟩ (forms context properties)
    | other => throw (.unexpectedValue other.fieldType (Value.entity kind properties).kindName)
  | single, codec => plain single codec

/-- The stored forms of the items of a list; nulls stay as they are. -/
def items (context : MappingContext) : List Value → Codec → SessionM (List Bson)
  | [], _ => pure []
  | item :: rest, codec => do
    let first ← orNull item (value context item codec)
    let others ← items context rest codec
    pure (first :: others)

/-- A document with the entries of a map added; nulls stay as they are. -/
def named (context : MappingContext) :
    List (String × Value) → Codec → Document → SessionM Document
  | [], _, document => pure document
  | (key, entry) :: rest, codec, document => do
    let stored ← orNull entry (value context entry codec)
    named context rest codec (Keyed.insert key stored document)

/-- The properties of an entity, ready to be stored. -/
def forms (context : MappingContext) :
    List (String × Value) → List (String × PropertyForm)
  | [] => []
  | (name, property) :: rest =>
    (name, (property, fun codec => value context property codec)) :: forms context rest

end

/-- A value without parts is stored as such. -/
theorem value_single {context : MappingContext} {single : Value}
    (simple : single.isSingle = true) (codec : Codec) :
    value context single codec = plain single codec := by
  cases single with
  | array | map | entity => cases simple
  | _ => simp only [value]

/-- The items of a list are stored one after the other. -/
theorem items_eq (context : MappingContext) (values : List Value) (codec : Codec) :
    items context values codec =
      values.mapM fun item => orNull item (value context item codec) := by
  induction values with
  | nil => rw [items, List.mapM_nil]
  | cons item rest ih => rw [items, ih, List.mapM_cons]

/-- The entries of a map are stored one after the other. -/
theorem named_eq (context : MappingContext) (values : List (String × Value)) (codec : Codec)
    (document : Document) :
    named context values codec document =
      values.foldlM (fun document entry => do
        let stored ← orNull entry.2 (value context entry.2 codec)
        pure (Keyed.insert entry.1 stored document)) document := by
  induction values generalizing document with
  | nil => rw [named, List.foldlM_nil]
  | cons entry rest ih =>
    rw [named, List.foldlM_cons]
    simp only [bind_assoc, pure_bind, ih]

/-- The properties keep their names and values. -/
theorem forms_eq (context : MappingContext) (properties : List (String × Value)) :
    forms context properties =
      properties.map fun entry => (entry.1, (entry.2, value context entry.2)) := by
  induction properties with
  | nil => rw [forms, List.map_nil]
  | cons entry rest ih => rw [forms, ih, List.map_cons]

/-- A property is stored from its value. -/
theorem get?_forms (context : MappingContext) (name : String)
    (properties : List (String × Value)) :
    Keyed.get? name (forms context properties) =
      (Keyed.get? name properties).map fun found => (found, value context found) := by
  rw [forms_eq]
  exact Keyed.get?_map (fun found => (found, value context found)) name properties

end Stored

end EntityMapping
