import EntityMapping.Keyed
import EntityMapping.Stream.Error
/-!
# Accumulating the source of a pushed or grouped value

The source is either a set of named fields or one expression. The first
request chooses between the two, and requests of the other mode are refused
from then on.
-/

namespace EntityMapping

/-- The cause of a failed step while expressions are built or written. -/
inductive AggregationError where
  /-- Named fields and a single expression were both requested. -/
  | mixedModes (operation : String)
  /-- Writing the document failed. -/
  | document (cause : DocumentError)

/-- The short name of a cause, by which callers tell causes apart. -/
def AggregationError.kind : AggregationError → String
  | mixedModes _ => "MixedModes"
  | document cause => "Document/" ++ cause.kind

/-- The wording of a failed step. -/
def AggregationError.message : AggregationError → String
  | mixedModes operation => operation ++ " cannot mix named fields with a single expression"
  | document cause => cause.message

/-- The source of an accumulated value. -/
inductive Accumulation (ε : Type) where
  /-- Nothing was requested yet. -/
  | empty
  /-- Named fields, which form a document. -/
  | fields (entries : List (String × ε))
  /-- One expression, which stands for itself. -/
  | single (expression : ε)

/-- A request that accumulates a source. The source is there beside the outcome, also where the
request is refused. -/
abbrev AccumulateM (ε : Type) := ExceptT AggregationError (StateM (Accumulation ε))

namespace Accumulation

variable {ε : Type}

/-- Request a named field for an operation. -/
def requestField (operation name : String) (expression : ε) : AccumulateM ε Unit := do
  match ← get with
  | empty => set (fields [(name, expression)])
  | fields entries => set (fields (Keyed.insert name expression entries))
  | single _ => throw (.mixedModes operation)

/-- Request one expression for an operation; it replaces an earlier one. -/
def requestSingle (operation : String) (expression : ε) : AccumulateM ε Unit := do
  match ← get with
  | fields _ => throw (.mixedModes operation)
  | _ => set (single expression)

/-- The source that an accepted request leaves. -/
def accepting (request : AccumulateM ε Unit) (source : Accumulation ε) :
    Except AggregationError (Accumulation ε) :=
  match request.run.run source with
  | (.ok (), accumulated) => .ok accumulated
  | (.error cause, _) => .error cause

/-- Give up a source for the one with a named field, for an operation. -/
def addField (operation name : String) (expression : ε) (source : Accumulation ε) :
    Except AggregationError (Accumulation ε) :=
  accepting (requestField operation name expression) source

/-- Give up a source for one expression, for an operation. -/
def setSingle (operation : String) (expression : ε) (source : Accumulation ε) :
    Except AggregationError (Accumulation ε) :=
  accepting (requestSingle operation expression) source

/-- Whether nothing was requested yet. -/
def isEmpty : Accumulation ε → Bool
  | empty => true
  | _ => false

end Accumulation

end EntityMapping
