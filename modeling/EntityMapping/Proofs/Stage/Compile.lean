import EntityMapping.Proofs.Expression.Compile
import EntityMapping.Stage.Meaning
/-!
# Stages are written as the documents they stand for

A stage is one entry from its name to a payload, and the payload is put together
from filters, settings and expressions that act as their own values. Hence
compiling a pipeline never fails, and gives one document for each stage.
-/

namespace EntityMapping

open Writer

/-- Writing a group key acts as writing its value. -/
theorem Group.represents_writeKey (key : Option (Accumulation Expression)) :
    Represents (writeKey key) (keyMeaning key) := by
  match key with
  | none | some .empty => exact .value .null
  | some (.fields entries) => exact Expression.represents_writeSource (.fields entries)
  | some (.single expression) => exact Expression.represents_writeSource (.single expression)

/-- Writing the decision about a field acts as writing its value. -/
theorem ProjectionEntry.represents_write (decision : ProjectionEntry) :
    Represents decision.write decision.meaning := by
  cases decision with
  | keep => exact .value (.boolean true)
  | leaveOut => exact .value (.boolean false)
  | computed expression => exact expression.represents_write

/-- Writing the decisions of a projection adds their values in order. -/
theorem Projection.adds_writeEntries (entries : List (String × ProjectionEntry)) :
    AddsEntries (writeEntries entries) (entries.map fun entry => (entry.1, entry.2.meaning)) := by
  induction entries with
  | nil => exact .nil
  | cons entry rest ih =>
    obtain ⟨name, decision⟩ := entry
    have both := (AddsEntries.named name decision.represents_write).append ih
    simp only [bind_assoc] at both
    exact both

/-- Writing the fields of an order adds their values in order. -/
theorem SortOrder.adds_writeEntries (entries : List (String × SortOrder)) :
    AddsEntries (writeEntries entries) (entries.map fun entry => (entry.1, entry.2.toBson)) := by
  induction entries with
  | nil => exact .nil
  | cons entry rest ih => exact (AddsEntries.field entry.1 entry.2.toBson).append ih

/-- Writing an unwinding acts as writing its value. -/
theorem Unwind.represents_write (unwinding : Unwind) :
    Represents unwinding.write unwinding.meaning := by
  obtain ⟨path, index, preserve⟩ := unwinding
  have settings : Represents
      (inDocument do
        writeField "path" (.string path)
        writeOptional "includeArrayIndex" (index.map .string)
        writeOptional "preserveNullAndEmptyArrays" (preserve.map .boolean))
      (.document (("path", .string path) ::
        (Expression.optionalEntry "includeArrayIndex" (index.map .string) ++
          Expression.optionalEntry "preserveNullAndEmptyArrays" (preserve.map .boolean)))) := by
    have place := AddsEntries.field "path" (.string path)
    have first := AddsEntries.optional "includeArrayIndex" (index.map .string)
    have second := AddsEntries.optional "preserveNullAndEmptyArrays" (preserve.map .boolean)
    refine .distinctDocument (place.append (first.append second)) ?_
    cases index <;> cases preserve <;>
      simp [Expression.optionalEntry, Keyed.Distinct, Keyed.keys]
  cases index with
  | some index => exact settings
  | none =>
    cases preserve with
    | some preserve => exact settings
    | none => exact .value (.string path)

namespace Stage

/-- Writing the payload of a stage acts as writing its value. -/
theorem represents_writePayload (stage : Stage) :
    Represents stage.writePayload stage.payload := by
  cases stage with
  | addFields fields => exact .document (Expression.adds_writeEntries fields)
  | count name => exact .value (.string name)
  | group grouping =>
    have key := AddsEntries.named "_id" (Group.represents_writeKey grouping.id)
    have both := key.append (Expression.adds_writeEntries grouping.fields)
    simp only [bind_assoc] at both
    exact .document both
  | limit amount => exact .value (.int64 amount)
  | select filter => exact .value (.document filter.document)
  | project projection => exact .document (Projection.adds_writeEntries projection.entries)
  | sample size =>
    exact .distinctDocument (.field "size" (.int64 size)) (by simp [Keyed.Distinct, Keyed.keys])
  | skip amount => exact .value (.int64 amount)
  | sort fields => exact .document (SortOrder.adds_writeEntries fields)
  | unwind unwinding => exact unwinding.represents_write

/-- Writing a stage acts as writing the document it stands for. -/
theorem represents_write (stage : Stage) : Represents stage.write (.document stage.meaning) :=
  Expression.represents_operation stage.represents_writePayload

/-- The document of a stage is the one it stands for. -/
theorem document_eq (stage : Stage) : stage.document = .ok stage.meaning := by
  rw [document, stage.represents_write.perform_empty]
  rfl

end Stage

/-- Compiling a pipeline never fails and gives the document of each stage in order. -/
theorem Pipeline.compile_eq (pipeline : Pipeline) :
    Pipeline.compile pipeline = .ok (pipeline.map Stage.meaning) := by
  induction pipeline with
  | nil => rfl
  | cons stage rest ih =>
    rw [Pipeline.compile] at ih ⊢
    rw [List.mapM_cons, stage.document_eq, ih]
    rfl

/-- Expressions and stages are written as their recursive meaning says. Wherever they stand,
writing them cannot be told from writing the value they stand for at once; a document expression
keeps all of its entries, and compiling never fails. -/
theorem Pipeline.writing_is_meaning :
    (∀ expression : Expression, ActsAs expression.write expression.meaning ∧
      expression.compile = .ok expression.meaning) ∧
    (∀ entries : List (String × Expression), Keyed.Distinct entries →
      Expression.meaning (.document entries) = .document (Expression.meaningEntries entries)) ∧
    (∀ stage : Stage, ActsAs stage.write (.document [(stage.name, stage.payload)])) ∧
    ∀ pipeline : Pipeline, Pipeline.compile pipeline =
      .ok (pipeline.map fun stage => [(stage.name, stage.payload)]) := by
  refine ⟨fun expression => ?_, fun entries => ?_, fun stage => ?_, fun pipeline => ?_⟩
  · exact ⟨expression.represents_write.actsAs, expression.compile_eq⟩
  · exact Expression.meaning_document
  · exact stage.represents_write.actsAs
  · exact Pipeline.compile_eq pipeline

/-- A sum is written as its meaning in an array at the root of a seeded writer, and refused by
a writer whose root is written. -/
theorem Pipeline.writing_is_meaning_sum :
    let total := Expression.add [.field "$price", .document [("tax", .value (.int32 1))]]
    let content := Bson.document [("$add", .array
      [.string "$price", .document [("tax", .int32 1)]])]
    let opened := (perform Call.startArray.step (seeded [("kept", .null)])).2
    let written := (perform (Call.value .null).step empty).2
    perform total.write opened = perform (writeValue content) opened ∧
      (∃ after, perform total.write opened = (.ok (), after)) ∧
      ∃ cause, perform total.write written = (.error cause, written) := by
  intro total content opened written
  obtain ⟨acts, -⟩ := Pipeline.writing_is_meaning.1 total
  have reached : opened.Reached := .call (.seed _) .startArray
  have apart : ¬ opened.Unopened := fun unopened => by cases unopened.1
  have finished : written.Reached := .call .fresh (.value .null)
  have apartToo : ¬ written.Unopened := fun unopened => by cases unopened.2.1
  refine ⟨acts.same opened reached apart, acts.accepted opened reached apart rfl, ?_⟩
  exact acts.refused written finished apartToo rfl

end EntityMapping
