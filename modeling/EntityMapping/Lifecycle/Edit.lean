import EntityMapping.Lifecycle.Hook
/-!
# Ready-made hook steps

Small edits of a document, lookups, reports and notes from which hooks are put
together.
-/

namespace EntityMapping

/-- One step of a hook. -/
inductive Edit where
  /-- Store a value. -/
  | insert (key : String) (value : Bson)
  /-- Drop a key. -/
  | remove (key : String)
  /-- Move a value to another key, if it is there. -/
  | rename (source target : String)
  /-- Store the count of properties of the entity. -/
  | putSize (key : String)
  /-- Store the kind of the entity. -/
  | putKind (key : String)
  /-- Store a property of the entity: a text, a 32-bit integer or an identifier as it
  is, the name of its form for any other value. -/
  | putProperty (property key : String)
  /-- Store the entity that a discriminator stands for. -/
  | putLookup (value key : String)
  /-- Store the document of another entity. -/
  | putEncoded (key : String) (entity : Entity)
  /-- Fail. -/
  | fail (cause : MappingError)
  /-- Leave a note. -/
  | note (tag : String)

namespace Edit

/-- The document value of a property, as stored by an edit. -/
def propertyValue : Option Value → Bson
  | none => .null
  | some (.string text) => .string text
  | some (.int32 value) => .int32 value
  | some (.objectId id) => .objectId id
  | some other => .string other.kindName

/-- Carry out one step at a point. -/
def run (kind : HookKind) (edit : Edit) : Hook := fun services entity document =>
  match edit with
  | insert key value => pure (Keyed.insert key value document)
  | remove key => pure (Keyed.remove key document)
  | rename source target =>
    match Keyed.get? source document with
    | some value => pure (Keyed.insert target value (Keyed.remove source document))
    | none => pure document
  | putSize key => pure (Keyed.insert key (.int32 (Int32.ofNat entity.size)) document)
  | putKind key => pure (Keyed.insert key (.string entity.kind) document)
  | putProperty property key =>
    pure (Keyed.insert key (propertyValue (entity.get? property)) document)
  | putLookup value key =>
    let found : Bson :=
      match services.lookup value with
      | some name => .string name
      | none => .null
    pure (Keyed.insert key found document)
  | putEncoded key other => do
    let encoded ← services.encode other
    pure (Keyed.insert key (.document encoded) document)
  | fail cause => throw cause
  | note tag => do
    Session.note ⟨tag, kind, entity, document⟩
    pure document

/-- Carry out steps one after the other. -/
def runAll (kind : HookKind) : List Edit → Hook
  | [] => Hook.idle
  | edit :: rest => fun services entity document => do
    let document ← run kind edit services entity document
    runAll kind rest services entity document

end Edit

/-- The interceptor that carries out steps at each point. -/
def Interceptor.ofEdits (edits : HookKind → List Edit) : Interceptor :=
  fun kind => Edit.runAll kind (edits kind)

end EntityMapping
