import EntityMapping.Proofs.Stream.Scopes
import EntityMapping.Expression.Meaning
import EntityMapping.Expression.Writing
/-!
# Expressions are written as the values they stand for

Wherever an expression stands, writing it event by event has the effect of
writing the value it stands for at once. The proof follows the syntax tree: a
scope is opened around arguments that act as their own values already.
-/

namespace EntityMapping

open Writer

/-- A setting that may be missing adds its entry, or nothing. -/
theorem Writer.AddsEntries.optional (label : String) (content : Option Bson) :
    AddsEntries (writeOptional label content) (Expression.optionalEntry label content) := by
  cases content with
  | none => exact .nil
  | some content => exact .field label content

namespace Expression

/-- A general expression is a document with its operation as the only name. -/
theorem represents_operation {operation : String} {payload : WriteM Unit} {content : Bson}
    (represents : Represents payload content) :
    Represents (inDocument (writeName operation >>= fun _ => payload))
      (.document [(operation, content)]) :=
  .distinctDocument (.named operation represents) (by simp [Keyed.Distinct, Keyed.keys])

-- One lemma for each function that writes a part of an expression. They call each other as the
-- functions do, and so the induction is on the expression.
mutual

/-- Writing an expression acts as writing the value it stands for. -/
theorem represents_write : ∀ expression : Expression,
    Represents expression.write expression.meaning
  | .field path => .value (.string path)
  | .value content => .value content
  | .document entries => .document (adds_writeEntries entries)
  | .array items => .array (adds_writeAll items)
  | .operator operation arguments => represents_operation (represents_writeArguments arguments)
  | .push source => represents_operation (represents_writeSource source)
  | .zip inputs useLongestLength defaults => by
    have arrays := AddsEntries.named "inputs" (.array (adds_writeAll inputs))
    have setting := AddsEntries.optional "useLongestLength" (useLongestLength.map .boolean)
    have values := adds_writeNamed "defaults" defaults
    refine represents_operation (.distinctDocument (arrays.append (setting.append values)) ?_)
    cases useLongestLength <;> cases defaults <;>
      simp [optionalEntry, meaningOptional, Keyed.Distinct, Keyed.keys]
  | .calculus operation input unit => by
    have argument := AddsEntries.named "input" (represents_write input)
    have setting := AddsEntries.optional "unit" (unit.map fun unit => .string unit.name)
    refine represents_operation (.distinctDocument (argument.append setting) ?_)
    cases unit <;> simp [optionalEntry, Keyed.Distinct, Keyed.keys]
  | .function body arguments language => by
    have text := AddsEntries.field "body" (.string body)
    have values := AddsEntries.named "args" (.array (adds_writeAll arguments))
    have script := AddsEntries.field "lang" (.string language)
    refine represents_operation (.distinctDocument (text.append (values.append script)) ?_)
    simp [Keyed.Distinct, Keyed.keys]

/-- Writing expressions one after the other adds the values they stand for. -/
theorem adds_writeAll : ∀ items : List Expression, AddsItems (writeAll items) (meanings items)
  | [] => .nil
  | item :: rest => (AddsItems.item (represents_write item)).append (adds_writeAll rest)

/-- Writing named expressions adds the values they stand for under their names. -/
theorem adds_writeEntries : ∀ entries : List (String × Expression),
    AddsEntries (writeEntries entries) (meaningEntries entries)
  | [] => .nil
  | (name, item) :: rest => by
    have first := AddsEntries.named name (represents_write item)
    have both := first.append (adds_writeEntries rest)
    simp only [bind_assoc] at both
    exact both

/-- Writing a name and an expression that may be missing adds its entry, or nothing. -/
theorem adds_writeNamed (name : String) : ∀ item : Option Expression,
    AddsEntries (writeNamed name item) (optionalEntry name (meaningOptional item))
  | none => .nil
  | some item => .named name (represents_write item)

/-- Writing arguments acts as writing the payload they stand for. -/
theorem represents_writeArguments : ∀ arguments : Arguments Expression,
    Represents (writeArguments arguments) (meaningArguments arguments)
  | .single argument => represents_write argument
  | .list arguments => .array (adds_writeAll arguments)
  | .named arguments => .document (adds_writeEntries arguments)

/-- Writing the source of an accumulated value acts as writing the value it stands for. -/
theorem represents_writeSource : ∀ source : Accumulation Expression,
    Represents (writeSource source) (meaningSource source)
  | .empty => .distinctDocument .nil List.nodup_nil
  | .fields entries => .document (adds_writeEntries entries)
  | .single item => represents_write item

end

/-- Compiling an expression never fails and gives the value it stands for. -/
theorem compile_eq (expression : Expression) : expression.compile = .ok expression.meaning := by
  rw [compile, (represents_write expression).valueOf_eq]
  rfl

/-- Named expressions stand for their values one by one. -/
theorem meaningEntries_eq (entries : List (String × Expression)) :
    meaningEntries entries = entries.map fun entry => (entry.1, entry.2.meaning) := by
  induction entries with
  | nil => rfl
  | cons entry rest ih => rw [meaningEntries, ih, List.map_cons]

/-- A document expression loses no entry: under distinct names, all of them stand for entries. -/
theorem meaning_document {entries : List (String × Expression)}
    (distinct : Keyed.Distinct entries) :
    meaning (.document entries) = .document (meaningEntries entries) := by
  have names : Keyed.Distinct (meaningEntries entries) := by
    rw [meaningEntries_eq]
    exact distinct.map meaning
  rw [meaning, Keyed.ofPairs_distinct names]

end Expression

end EntityMapping
