-- The case of letters. The tree of a text in lower case has the names of its
-- calls in lower case, and calls look their names up in upper case. So a text
-- has the same value in any case, whatever the functions are.
import Worksheet.Proofs.Expression.LowerCase
import Worksheet.Proofs.Expression.Operation

namespace Worksheet

open Text (lower trim)

/-! ## Any sheet functions -/

/-- The sheet functions of a calculator. Without a library none of them is
supported. -/
def Calculator.sheet (c : Calculator) : String → List Value → Except Fault Value :=
  Sheet.call (c.library?.getD fun _ => none)

namespace Expression

section

variable (sheet : String → List Value → Except Fault Value) (c : Calculator)

mutual

/-- The value of a tree with any functions in the place of those of the
library. They are given the name in upper case. -/
def evalWith : Expression → Except Fault Value
  | .number n => .ok (.ofNumber n)
  | .constant k => .ok k.value
  | .malformed f => .error f
  | .negative e => (evalWith e).bind negate
  | .positive e => (evalWith e).bind affirm
  | .binary op l r => (evalWith l).bind fun a => (evalWith r).bind fun b => op.apply a b
  | .call name args =>
    match c.registry.get? name with
    | some f => (evalAllWith args).bind (applyFunction name f)
    | none =>
      match c.library? with
      | some _ => (evalAllWith args).bind (sheet (Text.upper name))
      | none => .error (.unsupportedFunction (Text.upper name))

def evalAllWith : List Expression → Except Fault (List Value)
  | [] => .ok []
  | e :: rest => (evalWith e).bind fun v => (evalAllWith rest).bind fun vs => .ok (v :: vs)

end

end

/-- The value of an expression with any functions in the place of the sheet
functions. -/
def evaluateWith (sheet : String → List Value → Except Fault Value) (c : Calculator)
    (expression : String) : Except Fault Value :=
  match body expression.toList with
  | [] => .ok .empty
  | cs => evalWith sheet c (parse cs)

variable {sheet : String → List Value → Except Fault Value} {c : Calculator}

mutual

theorem evalWith_sheet (e : Expression) : evalWith c.sheet c e = eval c e := by
  cases e with
  | number n => rfl
  | constant k => rfl
  | malformed f => rfl
  | negative e =>
    rw [evalWith, eval, evalWith_sheet e]
    cases eval c e <;> rfl
  | positive e =>
    rw [evalWith, eval, evalWith_sheet e]
    cases eval c e <;> rfl
  | binary op l r =>
    rw [evalWith, eval, evalWith_sheet l, evalWith_sheet r]
    cases eval c l with
    | error f => rfl
    | ok a => cases eval c r <;> rfl
  | call name args =>
    rw [evalWith, eval, evalAllWith_sheet args]
    cases c.registry.get? name with
    | some f => cases evalAll c args <;> rfl
    | none =>
      unfold Calculator.sheet
      cases c.library? with
      | some library => cases evalAll c args <;> rfl
      | none => rfl

theorem evalAllWith_sheet (es : List Expression) : evalAllWith c.sheet c es = evalAll c es := by
  cases es with
  | nil => rfl
  | cons e rest =>
    rw [evalAllWith, evalAll, evalWith_sheet e, evalAllWith_sheet rest]
    cases eval c e with
    | error f => rfl
    | ok v => cases evalAll c rest <;> rfl

end

/-- The calculator is the one with its own sheet functions. -/
theorem evaluateWith_sheet (text : String) : evaluateWith c.sheet c text = c.evaluate text := by
  unfold evaluateWith Calculator.evaluate
  cases body text.toList with
  | nil => rfl
  | cons x cs => exact evalWith_sheet _

/-! ## Values of trees in lower case -/

theorem toOption_bind {α β : Type} (x : Except Fault α) (k : α → Except Fault β) :
    (x.bind k).toOption = x.toOption.bind fun a => (k a).toOption := by
  cases x <;> rfl

theorem get?_toLower (r : Registry) (name : String) : r.get? name.toLower = r.get? name := by
  unfold Registry.get?
  rw [Text.upper_toLower]

theorem applyFunction_toLower (name : String) (f : Function) :
    applyFunction name.toLower f = applyFunction name f := by
  funext args
  unfold applyFunction
  rw [Text.upper_toLower]

mutual

theorem evalWith_lowered (e : Expression) :
    (evalWith sheet c e.lowered).toOption = (evalWith sheet c e).toOption := by
  cases e with
  | number n => rfl
  | constant k => rfl
  | malformed f => rfl
  | negative e => rw [lowered, evalWith, evalWith, toOption_bind, toOption_bind, evalWith_lowered e]
  | positive e => rw [lowered, evalWith, evalWith, toOption_bind, toOption_bind, evalWith_lowered e]
  | binary op l r =>
    rw [lowered, evalWith, evalWith]
    simp only [toOption_bind, evalWith_lowered l, evalWith_lowered r]
  | call name args =>
    rw [lowered, evalWith, evalWith, get?_toLower, Text.upper_toLower]
    cases c.registry.get? name with
    | some f =>
      dsimp only
      rw [applyFunction_toLower, toOption_bind, toOption_bind, evalAllWith_lowered args]
    | none =>
      dsimp only
      split
      · rw [toOption_bind, toOption_bind, evalAllWith_lowered args]
      · rfl

theorem evalAllWith_lowered (es : List Expression) :
    (evalAllWith sheet c (loweredAll es)).toOption = (evalAllWith sheet c es).toOption := by
  cases es with
  | nil => rfl
  | cons e rest =>
    rw [loweredAll, evalAllWith, evalAllWith]
    simp only [toOption_bind, evalWith_lowered e, evalAllWith_lowered rest]

end

/-! ## Expressions in any case -/

theorem body_lower (cs : List Char) : body (lower cs) = lower (body cs) := by
  by_cases hmark : (trim cs).head? = some '='
  · obtain ⟨rest, hrest⟩ := List.head?_eq_some_iff.mp hmark
    have hlow : trim (lower cs) = '=' :: lower rest := by
      rw [Text.trim_lower, hrest]
      rfl
    rw [body_of_marked hrest, body_of_marked hlow, Text.trim_lower]
  · have hlow : (trim (lower cs)).head? ≠ some '=' := by
      rw [Text.trim_lower, ne_eq, head?_lower_eq_iff (by decide)]
      exact hmark
    rw [body_of_unmarked hmark, body_of_unmarked hlow, Text.trim_lower]

/-- An expression has the value that it has in lower case. -/
theorem evaluateWith_toLower (text : String) :
    (evaluateWith sheet c text.toLower).toOption = (evaluateWith sheet c text).toOption := by
  unfold evaluateWith
  rw [Text.toList_toLower, body_lower]
  cases body text.toList with
  | nil => rfl
  | cons x cs =>
    change (evalWith sheet c (parse (lower (x :: cs)))).toOption = _
    rw [parse_lower]
    exact evalWith_lowered _

/-- An expression in upper case and in lower case has the same value, or none
in both, also with any functions in the place of the sheet functions. -/
theorem evaluate_in_either_case (c : Calculator) (text : String) :
    (c.evaluate text.toUpper).toOption = (c.evaluate text.toLower).toOption ∧
      ∀ sheet : String → List Value → Except Fault Value,
        (evaluateWith sheet c text.toUpper).toOption =
          (evaluateWith sheet c text.toLower).toOption := by
  have hany : ∀ sheet : String → List Value → Except Fault Value,
      (evaluateWith sheet c text.toUpper).toOption =
        (evaluateWith sheet c text.toLower).toOption := by
    intro sheet
    rw [← evaluateWith_toLower text.toUpper, Text.toLower_of_toUpper]
  have hsheet := hany c.sheet
  rw [evaluateWith_sheet, evaluateWith_sheet] at hsheet
  exact ⟨hsheet, hany⟩

end Expression

end Worksheet
