import EntityMapping.Model.Basic
/-!
# Declaring entity models

A model is declared by a list of statements about it, applied in order to a
model that has nothing but a name.
-/

namespace EntityMapping

/-- One statement about a model. -/
inductive Declaration where
  /-- The model has a field. -/
  | field (field : Field)
  /-- The discriminator is stored under a key. -/
  | discriminatorKey (key : String)
  /-- The discriminator has a value. -/
  | discriminator (value : String)
  /-- A discriminator is used or not. -/
  | usesDiscriminator (enabled : Bool)
  /-- The model extends another one. -/
  | inherits (parent : EntityModel)
  /-- A hook runs at a point. -/
  | hook (kind : HookKind) (hook : Hook)

namespace EntityModel

/-- A model without fields, with its name as discriminator. -/
def blank (name : String) : EntityModel :=
  ⟨name, [], none, name, true, none, fun _ => []⟩

/-- Take over the fields, the hooks, the use of a discriminator and, unless one is
set, the discriminator key of another model. Inherited fields and hooks come first. -/
def inherit (model parent : EntityModel) : EntityModel :=
  { model with
    fields := parent.fields ++ model.fields
    discriminatorKey :=
      match model.discriminatorKey with
      | some key => some key
      | none => parent.discriminatorKey
    hooks := fun kind => parent.hooks kind ++ model.hooks kind
    usesDiscriminator := parent.usesDiscriminator
    parent := some parent.name }

/-- Apply one statement. -/
def declare (model : EntityModel) : Declaration → EntityModel
  | .field field => { model with fields := model.fields ++ [field] }
  | .discriminatorKey key => { model with discriminatorKey := some key }
  | .discriminator value => { model with discriminator := value }
  | .usesDiscriminator enabled => { model with usesDiscriminator := enabled }
  | .inherits parent => model.inherit parent
  | .hook kind hook =>
    { model with
      hooks := fun point =>
        if point = kind then model.hooks point ++ [hook] else model.hooks point }

/-- The model that statements declare, if it is sound. -/
def ofDeclarations (name : String) (declarations : List Declaration) :
    Except MappingError EntityModel := do
  let model := declarations.foldl declare (blank name)
  model.check
  pure model

end EntityModel

end EntityMapping
