-- The calculator. It evaluates an expression without references. Names of
-- functions are looked up in a registry, and, if the calculator has one, in a
-- library of sheet functions.
import Worksheet.Expression.Tree
import Worksheet.Function.Sheet
import Worksheet.Function.Standard

namespace Worksheet

/-! ## The calculator -/

structure Calculator where
  registry : Registry
  /-- Where the names are looked up that the registry does not know. -/
  library? : Option SheetLibrary

/-- The standard functions and no others. -/
def Calculator.builtIn : Calculator := ⟨Standard.registry, none⟩

/-- The standard functions with a library of sheet functions behind them. -/
def Calculator.standard (library : SheetLibrary) : Calculator :=
  ⟨Standard.registry, some library⟩

/-! ## Evaluation -/

/-- The value under a minus sign. -/
def negate (v : Value) : Except Fault Value :=
  (v.operand "-").map fun a => Value.ofNumber a.neg

/-- The value under a plus sign, which must be a number and stays as it
is. -/
def affirm (v : Value) : Except Fault Value := (v.operand "+").map fun _ => v

/-- A registered function on its arguments. Its fault, where a call reports
it, takes the name of the function. -/
def applyFunction (name : String) (f : Function) (args : List Value) : Except Fault Value :=
  match f args with
  | .ok v => .ok v
  | .error e => .error (if e.isReportedByCall then .callFailed (Text.upper name) e else e)

namespace Expression

mutual

/-- The value of a tree. Operands and arguments are evaluated from the
left, and the first fault ends it. -/
def eval (c : Calculator) : Expression → Except Fault Value
  | .number n => .ok (.ofNumber n)
  | .constant k => .ok k.value
  | .malformed f => .error f
  | .negative e =>
    match eval c e with
    | .error f => .error f
    | .ok v => negate v
  | .positive e =>
    match eval c e with
    | .error f => .error f
    | .ok v => affirm v
  | .binary op l r =>
    match eval c l with
    | .error f => .error f
    | .ok a =>
      match eval c r with
      | .error f => .error f
      | .ok b => op.apply a b
  | .call name args =>
    match c.registry.get? name with
    | some f =>
      match evalAll c args with
      | .error e => .error e
      | .ok vs => applyFunction name f vs
    | none =>
      match c.library? with
      | some library =>
        match evalAll c args with
        | .error e => .error e
        | .ok vs => Sheet.call library (Text.upper name) vs
      | none => .error (.unsupportedFunction (Text.upper name))

/-- The values of a list of trees. -/
def evalAll (c : Calculator) : List Expression → Except Fault (List Value)
  | [] => .ok []
  | e :: rest =>
    match eval c e with
    | .error f => .error f
    | .ok v =>
      match evalAll c rest with
      | .error f => .error f
      | .ok vs => .ok (v :: vs)

end

/-- The text of an expression proper: an equals sign in front is dropped. -/
def body (cs : List Char) : List Char :=
  match Text.trim cs with
  | '=' :: rest => Text.trim rest
  | cs => cs

end Expression

/-- The value of an expression; a blank one has the empty value. -/
def Calculator.evaluate (c : Calculator) (expression : String) : Except Fault Value :=
  match Expression.body expression.toList with
  | [] => .ok .empty
  | cs => (Expression.parse cs).eval c

end Worksheet
