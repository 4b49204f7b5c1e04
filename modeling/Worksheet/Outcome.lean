-- Outcomes. Evaluating a cell gives a value or a failure, and a failure
-- has a kind and a detail for the reader. A failed cell shows one fixed
-- word.
import Worksheet.Display

namespace Worksheet

/-! ## Failures -/

/-- Why a cell or a summary could not be produced. -/
inductive FailureKind where
  | unresolvedVariable
  | evaluationFailed
  | emptyResult
  | circularReference
  | aggregationFailed
deriving DecidableEq

namespace FailureKind

def name : FailureKind → String
  | .unresolvedVariable => "unresolved_variable"
  | .evaluationFailed => "evaluation_failed"
  | .emptyResult => "empty_result"
  | .circularReference => "circular_reference"
  | .aggregationFailed => "aggregation_failed"

def all : List FailureKind :=
  [.unresolvedVariable, .evaluationFailed, .emptyResult, .circularReference, .aggregationFailed]

/-- The kind of a name. -/
def ofName (s : String) : Except Fault FailureKind :=
  match all.find? fun k => k.name = s with
  | some k => .ok k
  | none => .error (.unknownFailureKind s)

end FailureKind

structure Failure where
  kind : FailureKind
  detail : String
deriving DecidableEq

/-! ## Outcomes -/

inductive Outcome where
  | value (v : Value)
  | failure (f : Failure)
deriving DecidableEq

/-- What a failed cell shows. -/
def failedText : String := "ERROR"

namespace Outcome

def isOk : Outcome → Bool
  | .value _ => true
  | .failure _ => false

/-- What the cell shows: its value, or the word for a failure. -/
def display : Outcome → Except Fault String
  | .value v => v.display
  | .failure _ => .ok failedText

end Outcome

end Worksheet
