import EntityMapping.Mapping.Error
import EntityMapping.Value.Basic
/-!
# Hooks

A hook sees an entity and its document and answers with a document that takes
the place of the one it was given. It may consult the mapper through a few
services, draw fresh identifiers through them, and leave notes. What hooks
leave behind stays even when a later step fails.
-/

namespace EntityMapping

/-- What a hook wrote down about a call. -/
structure Note where
  /-- The label of the note. -/
  tag : String
  /-- The point at which the hook ran. -/
  kind : HookKind
  /-- The entity as the hook saw it. -/
  entity : Entity
  /-- The document as the hook saw it. -/
  document : Document

/-- What mapping steps leave behind beside their answers. -/
structure Session where
  /-- The identifiers that are handed out, in order. -/
  ids : Nat → ObjectId
  /-- How many identifiers have been handed out. -/
  issued : Nat
  /-- The notes of hooks, oldest first. -/
  notes : List Note

/-- A step of a session that may fail. -/
abbrev SessionM := ExceptT MappingError (StateM Session)

namespace Session

/-- A session in which nothing happened yet. -/
def start (ids : Nat → ObjectId) : Session := ⟨ids, 0, []⟩

/-- The next identifier, and the session in which it is used up. -/
def draw (session : Session) : ObjectId × Session :=
  (session.ids session.issued, { session with issued := session.issued + 1 })

/-- Add a note. -/
def note (entry : Note) : SessionM Unit :=
  modify fun session => { session with notes := session.notes ++ [entry] }

end Session

/-- What hooks may ask of the mapper they run in. -/
structure Services where
  /-- The entity a discriminator stands for. -/
  lookup : String → Option String
  /-- The document of a top-level entity. -/
  encode : Entity → SessionM Document

/-- A callback on an entity and its document. -/
abbrev Hook := Services → Entity → Document → SessionM Document

/-- An observer of every entity of a mapper: one hook for each point. -/
abbrev Interceptor := HookKind → Hook

namespace Hook

/-- How many calls that hooks bring about may stand inside one another. Hooks are
arbitrary, so no bound can be read off them beforehand; a run that ends by itself
never comes near this one, because every open call takes up memory. -/
def nestingLimit : Nat := 0x4000000000000000

/-- The hook that changes nothing. -/
def idle : Hook := fun _ _ document => pure document

/-- The failure of a hook on an entity: hook failures pass through, all others are
reported as failures of this hook. -/
def failed (kind : HookKind) (entity : String) : MappingError → MappingError
  | .hook inner subject reason => .hook inner subject reason
  | other => .hook kind entity other.message

/-- Run hooks one after the other, each on the document of the one before. -/
def runAll (services : Services) (kind : HookKind) (model : String) (entity : Entity) :
    List Hook → Document → SessionM Document
  | [], document => pure document
  | hook :: rest, document => do
    let document ← tryCatch (hook services entity document) fun cause =>
      throw (failed kind model cause)
    runAll services kind model entity rest document

end Hook

end EntityMapping
