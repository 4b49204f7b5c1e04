-- Operators. Six operators calculate and eight compare. Both take numbers
-- only; integers stay exact among themselves, and an integer beside a
-- double becomes a double.
import Worksheet.Display

namespace Worksheet

/-! ## The operators -/

inductive Arithmetic where
  | plus
  | minus
  | times
  | divide
  | modulo
  | power
deriving DecidableEq

inductive Comparison where
  | greater
  | less
  | atLeast
  | atMost
  | equal
  | doubleEqual
  | unequal
  | notEqual
deriving DecidableEq

inductive Operator where
  | arithmetic (op : Arithmetic)
  | comparison (op : Comparison)
deriving DecidableEq

/-- The classes of operators, from the loosest to the tightest. -/
inductive Precedence where
  | comparison
  | additive
  | multiplicative
  | power
deriving DecidableEq

namespace Arithmetic

def symbol : Arithmetic → String
  | .plus => "+"
  | .minus => "-"
  | .times => "*"
  | .divide => "/"
  | .modulo => "%"
  | .power => "^"

def all : List Arithmetic := [.plus, .minus, .times, .divide, .modulo, .power]

/-- The operator that a symbol stands for. -/
def ofSymbol? (s : String) : Option Arithmetic := all.find? fun op => op.symbol = s

end Arithmetic

namespace Comparison

def symbol : Comparison → String
  | .greater => ">"
  | .less => "<"
  | .atLeast => ">="
  | .atMost => "<="
  | .equal => "="
  | .doubleEqual => "=="
  | .unequal => "<>"
  | .notEqual => "!="

def all : List Comparison :=
  [.greater, .less, .atLeast, .atMost, .equal, .doubleEqual, .unequal, .notEqual]

/-- The comparison that a symbol stands for. -/
def ofSymbol? (s : String) : Option Comparison := all.find? fun op => op.symbol = s

/-- What a comparison says of an order; numbers without an order are only
unequal. -/
def holds : Comparison → Option Ordering → Bool
  | .greater, o => o == some .gt
  | .less, o => o == some .lt
  | .atLeast, o => o == some .gt || o == some .eq
  | .atMost, o => o == some .lt || o == some .eq
  | .equal, o => o == some .eq
  | .doubleEqual, o => o == some .eq
  | .unequal, o => o != some .eq
  | .notEqual, o => o != some .eq

end Comparison

namespace Operator

def symbol : Operator → String
  | .arithmetic op => op.symbol
  | .comparison op => op.symbol

def precedence : Operator → Precedence
  | .arithmetic .plus => .additive
  | .arithmetic .minus => .additive
  | .arithmetic .times => .multiplicative
  | .arithmetic .divide => .multiplicative
  | .arithmetic .modulo => .multiplicative
  | .arithmetic .power => .power
  | .comparison _ => .comparison

end Operator

/-! ## Operands -/

/-- The operand as a number; the fault names the operator. -/
def Value.operand (symbol : String) (v : Value) : Except Fault Number :=
  match v.number? with
  | some a => .ok a
  | none =>
    match v.shown with
    | .ok shown => .error (.notNumeric symbol shown)
    | .error f => .error f

/-! ## Calculation -/

namespace Arithmetic

/-- The result of an operator on two numbers. -/
def apply (op : Arithmetic) (a b : Number) : Except Fault Number :=
  match op with
  | .plus => a.combine (· + ·) Double.add b
  | .minus => a.combine (· - ·) Double.sub b
  | .times => a.combine (· * ·) Double.mul b
  | .divide =>
    if b.isZero then .error .divisionByZero else (a.quotient b).map Number.double
  | .modulo =>
    if b.isZero then .error .moduloByZero else a.combine Int.fmod Double.mod b
  | .power => (a.power b).map Number.double

end Arithmetic

/-- Both operands as numbers, the left one first. -/
def operands (symbol : String) (l r : Value) : Except Fault (Number × Number) :=
  match l.operand symbol with
  | .error f => .error f
  | .ok a =>
    match r.operand symbol with
    | .error f => .error f
    | .ok b => .ok (a, b)

/-- Calculates with the operator of a symbol. -/
def calculate (symbol : String) (l r : Value) : Except Fault Value :=
  match operands symbol l r with
  | .error f => .error f
  | .ok (a, b) =>
    match Arithmetic.ofSymbol? symbol with
    | some op => (op.apply a b).map Value.ofNumber
    | none => .error (.unknownOperator symbol)

/-- Compares with the comparison of a symbol. -/
def compareValues (symbol : String) (l r : Value) : Except Fault Value :=
  match operands symbol l r with
  | .error f => .error f
  | .ok (a, b) =>
    match Comparison.ofSymbol? symbol with
    | some op => .ok (.bool (op.holds (a.compare? b)))
    | none => .error (.unknownComparison symbol)

/-- The value of an operator between two values. -/
def Operator.apply : Operator → Value → Value → Except Fault Value
  | .arithmetic op, l, r => calculate op.symbol l r
  | .comparison op, l, r => compareValues op.symbol l r

end Worksheet
