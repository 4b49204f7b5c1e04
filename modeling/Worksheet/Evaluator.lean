-- Evaluating cells. An evaluator replaces the references of an expression
-- and hands the text to its engine. Whatever goes wrong on the way becomes
-- a failure of the cell.
import Worksheet.Calculator
import Worksheet.Outcome
import Worksheet.Reference

namespace Worksheet

/-! ## The evaluator -/

/-- An engine gives the value of a text without references. -/
abbrev Engine : Type := String → Except Fault Value

structure Evaluator where
  engine : Engine

namespace Evaluator

/-- The evaluator with a calculator as its engine. -/
def ofCalculator (c : Calculator) : Evaluator := ⟨c.evaluate⟩

/-- The evaluator with the standard functions and no others. -/
def builtIn : Evaluator := ofCalculator Calculator.builtIn

/-- The evaluator with a library behind the standard functions. -/
def standard (library : SheetLibrary) : Evaluator := ofCalculator (Calculator.standard library)

/-- The outcome of a text without references. -/
def evaluateText (ev : Evaluator) (text : String) : Outcome :=
  if Text.isEmptyOrBlank text.toList then .failure ⟨.emptyResult, "Empty expression"⟩
  else
    match ev.engine text with
    | .error f => .failure ⟨.evaluationFailed, f.message⟩
    | .ok .empty => .failure ⟨.emptyResult, "Expression produced no value"⟩
    | .ok v => .value v

/-- The outcome of an expression. A reference without a text fails the
cell; a value that has no text at all is a fault. -/
def evaluate (ev : Evaluator) (expression : String) (vars : Variables) :
    Except Fault Outcome :=
  match substitute expression vars with
  | .ok text => .ok (ev.evaluateText text)
  | .error (.unresolvedVariable name) =>
    .ok (.failure ⟨.unresolvedVariable, (Fault.unresolvedVariable name).message⟩)
  | .error f => .error f

end Evaluator

end Worksheet
