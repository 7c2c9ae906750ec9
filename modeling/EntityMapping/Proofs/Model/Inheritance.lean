import EntityMapping.Model.Declaration
import EntityMapping.Proofs.Steps
/-!
# The place of a parent among declarations

A model that extends another is declared by statements of its own, with the parent named somewhere
among them. What is inherited goes in front of what was stated so far, and a key that was set is
kept; so neither fields nor hooks nor the key depend on the place. Whether a discriminator is used
does: it is overwritten by the parent's setting, and only a statement after the parent has effect.
-/

namespace EntityMapping

namespace Declaration

/-- A statement about the model itself, not about its parent. -/
def IsOwn : Declaration → Prop
  | inherits _ => False
  | _ => True

/-- The field that a statement adds. -/
def field? : Declaration → Option Field
  | field added => some added
  | _ => none

/-- The discriminator key that a statement sets. -/
def key? : Declaration → Option String
  | discriminatorKey key => some key
  | _ => none

/-- The discriminator value that a statement sets. -/
def value? : Declaration → Option String
  | discriminator value => some value
  | _ => none

/-- The use of a discriminator that a statement sets. -/
def use? : Declaration → Option Bool
  | usesDiscriminator enabled => some enabled
  | _ => none

/-- The hook that a statement adds at a point. -/
def hookAt? (point : HookKind) : Declaration → Option Hook
  | hook kind added => if point = kind then some added else none
  | _ => none

/-- The last setting of one kind among statements. -/
def last {α : Type} (setting : Declaration → Option α) (statements : List Declaration) : Option α :=
  (statements.filterMap setting).getLast?

variable {α : Type} {setting : Declaration → Option α}

/-- Of two lists of statements the later counts, where it makes the setting. -/
theorem last_append (before after : List Declaration) :
    last setting (before ++ after) = (last setting after).or (last setting before) := by
  rw [last, List.filterMap_append, List.getLast?_append]
  rfl

/-- A single statement makes its own setting. -/
theorem last_singleton (statement : Declaration) : last setting [statement] = setting statement := by
  rw [last, List.filterMap_cons]
  cases setting statement <;> rfl

end Declaration

namespace EntityModel

open Declaration

/-- The model with the statements of a list on top of it. -/
def stating (model : EntityModel) (statements : List Declaration) : EntityModel :=
  { model with
    fields := model.fields ++ statements.filterMap field?
    discriminatorKey := (last key? statements).or model.discriminatorKey
    discriminator := (last value? statements).getD model.discriminator
    usesDiscriminator := (last use? statements).getD model.usesDiscriminator
    hooks := fun kind => model.hooks kind ++ statements.filterMap (hookAt? kind) }

/-- The model of a name that extends a parent and states the rest itself. Inherited fields and
hooks come first, and its own settings take precedence over the inherited ones. -/
def heir (name : String) (parent : EntityModel) (statements : List Declaration) : EntityModel where
  name := name
  fields := parent.fields ++ statements.filterMap field?
  discriminatorKey := (last key? statements).or parent.discriminatorKey
  discriminator := (last value? statements).getD name
  usesDiscriminator := (last use? statements).getD parent.usesDiscriminator
  parent := some parent.name
  hooks kind := parent.hooks kind ++ statements.filterMap (hookAt? kind)

/-- The model with another use of its discriminator. -/
def withUse (model : EntityModel) (enabled : Bool) : EntityModel :=
  { model with usesDiscriminator := enabled }

/-- The model, if it passes its check. -/
def checked (model : EntityModel) : Except MappingError EntityModel := do
  model.check
  pure model

/-- A statement of its own changes a model as a list of it alone. -/
theorem declare_own (model : EntityModel) {statement : Declaration} (own : statement.IsOwn) :
    model.declare statement = model.stating [statement] := by
  cases statement with
  | inherits => exact own.elim
  | hook kind added =>
    have hooks : (fun point => if point = kind then model.hooks point ++ [added]
        else model.hooks point) = fun point =>
          model.hooks point ++ [hook kind added].filterMap (hookAt? point) := by
      funext point
      by_cases here : point = kind <;> simp [hookAt?, here]
    simp [declare, stating, last_singleton, field?, key?, value?, use?, hooks]
  | _ =>
    simp [declare, stating, last_singleton, field?, key?, value?, use?, hookAt?,
      List.filterMap_cons]

/-- Statements may be made in two parts. -/
theorem stating_append (model : EntityModel) (before after : List Declaration) :
    model.stating (before ++ after) = (model.stating before).stating after := by
  simp only [stating, List.filterMap_append, List.append_assoc, last_append, Option.or_assoc]
  congr 1 <;> cases last value? after <;> cases last use? after <;> rfl

/-- Statements of its own are made one after the other. -/
theorem foldl_declare (model : EntityModel) {statements : List Declaration}
    (own : ∀ statement ∈ statements, statement.IsOwn) :
    statements.foldl declare model = model.stating statements := by
  induction statements generalizing model with
  | nil => simp [stating, last]
  | cons statement rest ih =>
    obtain ⟨first, others⟩ := List.forall_mem_cons.mp own
    rw [List.foldl_cons, declare_own model first, ih _ others, ← stating_append,
      List.singleton_append]

/-- A parent among statements of its own: all that the place of the parent decides is whether a
discriminator is used. -/
theorem foldl_inherits (name : String) (parent : EntityModel) {before after : List Declaration}
    (own : ∀ statement ∈ before ++ after, statement.IsOwn) :
    (before ++ .inherits parent :: after).foldl declare (blank name) =
      (heir name parent (before ++ after)).withUse
        ((last use? after).getD parent.usesDiscriminator) := by
  obtain ⟨first, second⟩ := List.forall_mem_append.mp own
  rw [List.foldl_append, List.foldl_cons, foldl_declare _ first, declare, foldl_declare _ second]
  simp only [stating, inherit, heir, withUse, blank, List.filterMap_append, List.append_assoc,
    List.nil_append, last_append, Option.or_none, Option.or_assoc]
  congr 1
  · cases last key? after <;> cases last key? before <;> rfl
  · cases last value? after <;> rfl

/-- What is refused for its fields is refused whether a discriminator is used or not. -/
theorem check_of_withUse_false {model : EntityModel} {cause : MappingError}
    (refused : (model.withUse false).check = .error cause) : model.check = .error cause := by
  unfold check at refused ⊢
  dsimp only [withUse, activeKey] at refused ⊢
  split at refused
  · rename_i many
    rwa [if_pos many]
  · rename_i few
    rw [if_neg few]
    split at refused
    · exact refused
    · cases refused

/-- A model that is accepted is the one that was checked. -/
theorem eq_of_checked {model accepted : EntityModel} (passed : model.checked = .ok accepted) :
    accepted = model := by
  obtain ⟨⟨⟩, -, same⟩ := ok_of_bind passed
  exact (Except.ok.inj same).symm

/-- Models with different uses of a discriminator are told apart, unless their fields are
refused. -/
theorem checked_withUse_eq_iff {model : EntityModel} {one other : Bool} :
    (model.withUse one).checked = (model.withUse other).checked ↔
      one = other ∨ ∃ cause, (model.withUse false).check = .error cause := by
  constructor
  · intro same
    cases passed : (model.withUse false).check with
    | error cause => exact .inr ⟨cause, rfl⟩
    | ok =>
      have plain : (model.withUse false).checked = .ok (model.withUse false) := by
        rw [checked, passed]
        rfl
      have unused : ∀ enabled, (model.withUse enabled).checked = .ok (model.withUse false) →
          enabled = false := fun enabled accepted =>
        (congrArg usesDiscriminator (eq_of_checked accepted)).symm
      left
      cases one with
      | false => exact (unused other (same.symm.trans plain)).symm
      | true =>
        cases other with
        | false => exact unused true (same.trans plain)
        | true => rfl
  · rintro (rfl | ⟨cause, refused⟩)
    · rfl
    · have first := @check_of_withUse_false (model.withUse one) cause refused
      have second := @check_of_withUse_false (model.withUse other) cause refused
      rw [checked, checked, first, second]
      rfl

/-- Where the parent is named among the statements of a model decides about nothing but the use of
a discriminator: it is what the statements after the parent say last, and else that of the parent.
The model, or the complaint about it, is the one in which the own settings take precedence exactly
where this makes no difference to the last statement about the use of a discriminator, or where
the fields are refused anyway. It is the same wherever the parent is named exactly where no
statement says otherwise than the parent, or again the fields are refused. -/
theorem ofDeclarations_inherits_iff (name : String) (parent : EntityModel)
    {statements : List Declaration} (own : ∀ statement ∈ statements, statement.IsOwn) :
    let model := heir name parent statements
    let refused := ∃ cause, (model.withUse false).check = .error cause
    (∀ before after, before ++ after = statements →
      let placed := ofDeclarations name (before ++ .inherits parent :: after)
      placed = (model.withUse ((last use? after).getD parent.usesDiscriminator)).checked ∧
        (placed = model.checked ↔
          (last use? after).getD parent.usesDiscriminator =
            (last use? statements).getD parent.usesDiscriminator ∨ refused)) ∧
    ((∀ before after, before ++ after = statements →
      ofDeclarations name (before ++ .inherits parent :: after) = model.checked) ↔
        (last use? statements).getD parent.usesDiscriminator = parent.usesDiscriminator ∨
          refused) := by
  intro model refused
  have placed : ∀ before after, before ++ after = statements →
      ofDeclarations name (before ++ .inherits parent :: after) =
        (model.withUse ((last use? after).getD parent.usesDiscriminator)).checked := by
    rintro before after rfl
    exact congrArg checked (foldl_inherits name parent own)
  have same : ∀ before after, before ++ after = statements →
      (ofDeclarations name (before ++ .inherits parent :: after) = model.checked ↔
        (last use? after).getD parent.usesDiscriminator =
          (last use? statements).getD parent.usesDiscriminator ∨ refused) := by
    intro before after parts
    rw [placed before after parts]
    exact checked_withUse_eq_iff
  refine ⟨fun before after parts => ⟨placed before after parts, same before after parts⟩, ?_⟩
  constructor
  · intro everywhere
    -- With the parent at the end, no statement comes after it.
    have atEnd := (same statements [] (List.append_nil _)).mp (everywhere _ _ (List.append_nil _))
    exact atEnd.imp_left Eq.symm
  · rintro (agree | refused) before after parts
    · refine (same before after parts).mpr (.inl ?_)
      obtain rfl := parts
      rw [last_append] at agree ⊢
      cases final : last use? after with
      | none =>
        rw [final] at agree
        exact agree.symm
      | some enabled => rfl
    · exact (same before after parts).mpr (.inr refused)

/-- A circle that uses no discriminator: the statement is lost where it is made before the parent,
whose discriminator is used. -/
theorem ofDeclarations_inherits_circle :
    let radius := Declaration.field (Field.plain "radius" (.scalar .double))
    (∀ statement ∈ [.usesDiscriminator false, radius], statement.IsOwn) ∧
      ofDeclarations "Circle" [.usesDiscriminator false, .inherits (blank "Shape"), radius] =
        ((heir "Circle" (blank "Shape") [.usesDiscriminator false, radius]).withUse true).checked := by
  intro radius
  have own : ∀ statement ∈ [.usesDiscriminator false, radius], statement.IsOwn := by
    simp [IsOwn, radius]
  have both := (ofDeclarations_inherits_iff "Circle" (blank "Shape") own).1
  exact ⟨own, (both [.usesDiscriminator false] [radius] rfl).1⟩

/-- Of two models that differ in nothing but the place of their parent one uses a discriminator,
although both state that none is used. -/
theorem ofDeclarations_inherits_last :
    (ofDeclarations "Circle" [.inherits (blank "Shape"), .usesDiscriminator false]).map
        usesDiscriminator = .ok false ∧
      (ofDeclarations "Circle" [.usesDiscriminator false, .inherits (blank "Shape")]).map
        usesDiscriminator = .ok true :=
  ⟨rfl, rfl⟩

end EntityModel

end EntityMapping
