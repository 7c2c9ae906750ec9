import EntityMapping.Expression.Accumulation
import EntityMapping.Proofs.Keyed.Settling
import EntityMapping.Proofs.Steps
/-!
# The mode of an accumulated source

Named fields and a single expression may be requested in any order. The first request decides
which of the two the source is. Requests of the other mode are refused from then on and leave no
trace: the source is what the requests of its own mode make of it.
-/

namespace EntityMapping

/-- The two modes of a source. -/
inductive SourceMode where
  /-- Named fields, which form a document. -/
  | fields
  /-- One expression, which stands for itself. -/
  | single
  deriving DecidableEq

/-- A call that requests the source of an operation. -/
inductive SourceCall (ε : Type) where
  /-- Request a named field. -/
  | field (operation name : String) (expression : ε)
  /-- Request one expression. -/
  | single (operation : String) (expression : ε)

variable {ε : Type}

namespace SourceCall

/-- The operation that a call is made for. -/
def operation : SourceCall ε → String
  | field operation _ _ => operation
  | single operation _ => operation

/-- The mode that a call requests. -/
def mode : SourceCall ε → SourceMode
  | field _ _ _ => .fields
  | single _ _ => .single

/-- The named field that a call requests. -/
def field? : SourceCall ε → Option (String × ε)
  | field _ name expression => some (name, expression)
  | single _ _ => none

/-- The single expression that a call requests. -/
def single? : SourceCall ε → Option ε
  | field _ _ _ => none
  | single _ expression => some expression

/-- The request that a call makes of a source. -/
def request : SourceCall ε → AccumulateM ε Unit
  | field operation name expression => Accumulation.requestField operation name expression
  | single operation expression => Accumulation.requestSingle operation expression

/-- The answer to a call where a mode is chosen: the other mode is refused for the operation of
the call. -/
def answer (chosen : SourceMode) (call : SourceCall ε) : Except AggregationError Unit :=
  if call.mode = chosen then .ok () else .error (.mixedModes call.operation)

/-- Only calls of their mode request named fields. -/
theorem field?_eq_none {call : SourceCall ε} (other : call.mode ≠ .fields) :
    call.field? = none := by
  cases call with
  | field operation name expression => exact absurd rfl other
  | single operation expression => rfl

/-- Only calls of its mode request a single expression. -/
theorem single?_eq_none {call : SourceCall ε} (other : call.mode ≠ .single) :
    call.single? = none := by
  cases call with
  | field operation name expression => rfl
  | single operation expression => exact absurd rfl other

/-- What only calls of one mode request is found in those calls alone. -/
theorem filterMap_of_mode {β : Type} {chosen : SourceMode} {request : SourceCall ε → Option β}
    (absent : ∀ call : SourceCall ε, call.mode ≠ chosen → request call = none)
    (calls : List (SourceCall ε)) :
    (calls.filter fun call => decide (call.mode = chosen)).filterMap request =
      calls.filterMap request := by
  rw [List.filterMap_filter]
  congr 1
  funext call
  by_cases same : call.mode = chosen
  · rw [if_pos (decide_eq_true same)]
  · rw [if_neg (by simpa using same), absent call same]

end SourceCall

namespace Accumulation

/-- The mode of a source, once something was requested. -/
def mode? : Accumulation ε → Option SourceMode
  | empty => none
  | fields _ => some .fields
  | single _ => some .single

/-- A source holds what the calls of its mode request. -/
inductive Collects (calls : List (SourceCall ε)) : Accumulation ε → Prop
  /-- Named fields stand in the order of first use, each with the expression given last for it. -/
  | fields {entries : Keyed ε} : Keyed.Settles (calls.filterMap SourceCall.field?) entries →
    Collects calls (.fields entries)
  /-- A single expression is the one given last. -/
  | single {expression : ε} : (calls.filterMap SourceCall.single?).getLast? = some expression →
    Collects calls (.single expression)

end Accumulation

/-- A source while calls are made. -/
structure SourceRun (ε : Type) where
  /-- The source. -/
  source : Accumulation ε
  /-- The answers to the calls so far. -/
  answers : List (Except AggregationError Unit)

namespace SourceRun

/-- A source of which nothing was requested. -/
def start : SourceRun ε := ⟨.empty, []⟩

/-- Make a call. The source is what the call leaves, accepted or not. -/
def step (run : SourceRun ε) (call : SourceCall ε) : SourceRun ε :=
  let (answer, source) := perform call.request run.source
  ⟨source, run.answers ++ [answer]⟩

/-- Make calls one after another. -/
def after (run : SourceRun ε) (calls : List (SourceCall ε)) : SourceRun ε := calls.foldl step run

/-- The calls after a first one are made on what it leaves. -/
theorem after_cons (run : SourceRun ε) (call : SourceCall ε) (rest : List (SourceCall ε)) :
    run.after (call :: rest) = (run.step call).after rest := rfl

/-- Named fields take another one, and refuse a single expression. -/
theorem step_fields (entries : Keyed ε) (answers : List (Except AggregationError Unit))
    (call : SourceCall ε) :
    step ⟨.fields entries, answers⟩ call =
      ⟨.fields (Keyed.overlay entries call.field?.toList), answers ++ [call.answer .fields]⟩ := by
  cases call with
  | field operation name expression => rfl
  | single operation expression => rfl

/-- A single expression gives way to another one, and refuses a named field. -/
theorem step_single (expression : ε) (answers : List (Except AggregationError Unit))
    (call : SourceCall ε) :
    step ⟨.single expression, answers⟩ call =
      ⟨.single (call.single?.getD expression), answers ++ [call.answer .single]⟩ := by
  cases call with
  | field operation name other => rfl
  | single operation other => rfl

/-- Named fields stay named fields, and take those that calls request. -/
theorem after_fields (entries : Keyed ε) (answers : List (Except AggregationError Unit))
    (calls : List (SourceCall ε)) :
    after ⟨.fields entries, answers⟩ calls =
      ⟨.fields (Keyed.overlay entries (calls.filterMap SourceCall.field?)),
        answers ++ calls.map (SourceCall.answer .fields)⟩ := by
  induction calls generalizing entries answers with
  | nil => simp [after, Keyed.overlay]
  | cons call rest ih =>
    -- An accepted call stores its field before those of the rest, a refused one stores nothing.
    have taken : Keyed.overlay (Keyed.overlay entries call.field?.toList)
        (rest.filterMap SourceCall.field?) =
        Keyed.overlay entries ((call :: rest).filterMap SourceCall.field?) := by
      cases call with
      | field operation name expression => rfl
      | single operation expression => rfl
    rw [after_cons, step_fields, ih, taken, List.append_assoc, List.map_cons,
      List.singleton_append]

/-- A single expression stays one, and is the last that calls request. -/
theorem after_single (expression : ε) (answers : List (Except AggregationError Unit))
    (calls : List (SourceCall ε)) :
    after ⟨.single expression, answers⟩ calls =
      ⟨.single ((calls.filterMap SourceCall.single?).getLastD expression),
        answers ++ calls.map (SourceCall.answer .single)⟩ := by
  induction calls generalizing expression answers with
  | nil => simp [after]
  | cons call rest ih =>
    -- An accepted call is the last one until a later one is, a refused one changes nothing.
    have replaced : (rest.filterMap SourceCall.single?).getLastD (call.single?.getD expression) =
        ((call :: rest).filterMap SourceCall.single?).getLastD expression := by
      cases call with
      | field operation name other => rfl
      | single operation other => exact List.getLastD_cons.symm
    rw [after_cons, step_single, ih, replaced, List.append_assoc, List.map_cons,
      List.singleton_append]

/-- A first request for a named field makes the source the named fields that calls request. -/
theorem after_start_field (operation name : String) (expression : ε)
    (rest : List (SourceCall ε)) :
    start.after (.field operation name expression :: rest) =
      ⟨.fields (Keyed.ofPairs ((name, expression) :: rest.filterMap SourceCall.field?)),
        .ok () :: rest.map (SourceCall.answer .fields)⟩ :=
  after_fields [(name, expression)] [.ok ()] rest

/-- A first request for a single expression makes the source the last one that calls request. -/
theorem after_start_single (operation : String) (expression : ε) (rest : List (SourceCall ε)) :
    start.after (.single operation expression :: rest) =
      ⟨.single ((rest.filterMap SourceCall.single?).getLastD expression),
        .ok () :: rest.map (SourceCall.answer .single)⟩ :=
  after_single expression [.ok ()] rest

/-- Where a mode is chosen, a call requests the other one exactly where it is refused for the
operation it is made for and nothing else changes. -/
theorem other_mode_iff_step {run : SourceRun ε} {chosen : SourceMode}
    (settled : run.source.mode? = some chosen) (call : SourceCall ε) :
    call.mode ≠ chosen ↔ run.step call =
      { run with answers := run.answers ++ [.error (.mixedModes call.operation)] } := by
  obtain ⟨source, answers⟩ := run
  cases source with
  | empty => cases settled
  | fields entries =>
    obtain rfl : SourceMode.fields = chosen := Option.some.inj settled
    rw [step_fields]
    cases call with
    | field operation name expression => simp [SourceCall.mode, SourceCall.answer]
    | single operation expression =>
      have other : SourceMode.single ≠ .fields := by decide
      exact ⟨fun _ => rfl, fun _ => other⟩
  | single held =>
    obtain rfl : SourceMode.single = chosen := Option.some.inj settled
    rw [step_single]
    cases call with
    | field operation name expression =>
      have other : SourceMode.fields ≠ .single := by decide
      exact ⟨fun _ => rfl, fun _ => other⟩
    | single operation expression => simp [SourceCall.mode, SourceCall.answer]

/-- The first call decides about a source. Its mode is the mode of the source after any further
calls. The calls of this mode are accepted; one of the other mode is refused for the operation it
is made for, and leaves the source as it is. So the source is the same as without the refused
calls: named fields in the order of first use, each with the expression given last for it, or the
single expression given last. -/
theorem first_call_decides (first : SourceCall ε) (rest : List (SourceCall ε)) :
    let calls := first :: rest
    let run := start.after calls
    run.source.mode? = some first.mode ∧
      run.answers = calls.map (SourceCall.answer first.mode) ∧
      (∀ next : SourceCall ε, next.mode ≠ first.mode ↔ run.step next =
        { run with answers := run.answers ++ [.error (.mixedModes next.operation)] }) ∧
      run.source =
        (start.after (calls.filter fun call => decide (call.mode = first.mode))).source ∧
      run.source.Collects calls := by
  intro calls run
  -- The first call is of its own mode, so that it comes first among the calls of this mode too.
  have kept : calls.filter (fun call => decide (call.mode = first.mode)) =
      first :: rest.filter fun call => decide (call.mode = first.mode) :=
    List.filter_cons_of_pos (by simp)
  rw [kept]
  cases first with
  | field operation name expression =>
    have ended : run = _ := after_start_field operation name expression rest
    have settled : run.source.mode? = some .fields := by rw [ended]; rfl
    refine ⟨settled, ?_, other_mode_iff_step settled, ?_, ?_⟩
    · rw [ended]
      rfl
    · rw [ended, after_start_field, SourceCall.mode,
        SourceCall.filterMap_of_mode fun _ => SourceCall.field?_eq_none]
    · rw [ended]
      exact .fields (Keyed.settles_ofPairs _)
  | single operation expression =>
    have ended : run = _ := after_start_single operation expression rest
    have settled : run.source.mode? = some .single := by rw [ended]; rfl
    refine ⟨settled, ?_, other_mode_iff_step settled, ?_, ?_⟩
    · rw [ended]
      rfl
    · rw [ended, after_start_single, SourceCall.mode,
        SourceCall.filterMap_of_mode fun _ => SourceCall.single?_eq_none]
    · rw [ended]
      have given : calls.filterMap SourceCall.single? =
          expression :: rest.filterMap SourceCall.single? := rfl
      refine .single ?_
      rw [given, List.getLast?_cons, List.getLastD_eq_getLast?]

/-- Refused calls among named fields do not disturb them. -/
example (first other second again : ε) :
    (start.after [.field "$push" "item" first, .single "$push" other,
      .field "$push" "size" second, .field "$push" "item" again]).source =
      .fields [("item", again), ("size", second)] := rfl

end SourceRun

end EntityMapping
