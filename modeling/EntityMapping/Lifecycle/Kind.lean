/-!
# Points in the life of an entity

The four points at which hooks run while an entity is written or read.
-/

namespace EntityMapping

/-- A point at which hooks run. -/
inductive HookKind where
  /-- Before the fields are written; the document is still empty. -/
  | prePersist
  /-- After the fields are written; the document is complete. -/
  | postPersist
  /-- Before the fields are read; the document is as stored. -/
  | preLoad
  /-- After the instance is built. -/
  | postLoad
  deriving DecidableEq

/-- The name of a point in messages. -/
def HookKind.name : HookKind → String
  | prePersist => "pre-persist"
  | postPersist => "post-persist"
  | preLoad => "pre-load"
  | postLoad => "post-load"

end EntityMapping
