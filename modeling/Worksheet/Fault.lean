-- Faults. A fault is the reason for which a text, a number or a function
-- gives no answer. Each cause is its own case; the wording of all of them
-- stands in one place, and so does their sorting into kinds.
import Worksheet.Text.Quoted

namespace Worksheet

/-! ## Causes -/

/-- How many arguments a function takes. -/
inductive Arity where
  | one
  | two
  | oneOrTwo
  | atLeastOne
deriving DecidableEq

def Arity.text : Arity → String
  | .one => "exactly 1 argument"
  | .two => "exactly 2 arguments"
  | .oneOrTwo => "1 or 2 arguments"
  | .atLeastOne => "at least 1 argument"

/-- The kinds of faults. A call turns a fault of a value, a type or a
calculation into a fault of the expression, and passes on the others. -/
inductive FaultKind where
  | expression
  | unresolved
  | unsupported
  | value
  | type
  | overflow
  | zeroDivision
  | index
  | key
  | failure
deriving DecidableEq

/-- Why there is no answer. A payload called `shown` is a value as it
stands in the message. -/
inductive Fault where
  /-- An operator, a bracket or a comma has nothing beside it. -/
  | missingOperand
  /-- A bracket that opens the text is not closed at its end. -/
  | unbalanced (text : String)
  /-- A text is no number, no constant and no call. -/
  | unknownSymbol (text : String)
  | notNumeric (operator shown : String)
  | divisionByZero
  | moduloByZero
  | zeroToNegativePower
  | complexPower
  | unknownOperator (symbol : String)
  | unknownComparison (symbol : String)
  /-- A value cannot be handed to a sheet function. -/
  | notALiteral (shown : String)
  | unresolvedVariable (name : String)
  | unsupportedFunction (name : String)
  /-- A function failed on its arguments. -/
  | callFailed (name : String) (cause : Fault)
  | wrongArity (name : String) (arity : Arity)
  | nonNumericArgument (shown : String)
  | nothingToAverage
  | negativeRoot
  | negativeBase
  | remainderByZero
  /-- A number is outside the domain of a function. -/
  | domain
  /-- An exponential is past the largest double. -/
  | range
  | integerTooLarge
  | quotientTooLarge
  | doubleDivisionByZero
  | zeroDoubleToNegative
  | infinityToInteger
  | nanToInteger
  /-- A position lies outside a list. -/
  | outOfRange
  | tooManyParts
  | tooFewParts (got : Nat)
  /-- An integer has too many digits to be read or written; the number of
  digits is told when it is read. -/
  | tooManyDigits (digits : Option Nat)
  | invalidIndex (shown : String)
  | unknownAggregation (shown : String)
  | unknownColumnType (text : String)
  | unknownOrdering (text : String)
  | unknownFailureKind (text : String)
  | unknownColumn (name : String)
  /-- A function or an engine from outside failed in its own words. -/
  | raised (kind : FaultKind) (message : String)
deriving DecidableEq

namespace Fault

/-! ## Kinds -/

def kind : Fault → FaultKind
  | missingOperand | unbalanced _ | unknownSymbol _ | notNumeric _ _ | divisionByZero
  | moduloByZero | zeroToNegativePower | complexPower | unknownOperator _
  | unknownComparison _ | notALiteral _ | callFailed _ _ => .expression
  | unresolvedVariable _ => .unresolved
  | unsupportedFunction _ => .unsupported
  | wrongArity _ _ | nonNumericArgument _ | nothingToAverage | negativeRoot | negativeBase
  | domain | nanToInteger | tooManyParts | tooFewParts _ | tooManyDigits _ | invalidIndex _
  | unknownAggregation _ | unknownColumnType _ | unknownOrdering _
  | unknownFailureKind _ => .value
  | range | integerTooLarge | quotientTooLarge | infinityToInteger => .overflow
  | remainderByZero | doubleDivisionByZero | zeroDoubleToNegative => .zeroDivision
  | outOfRange => .index
  | unknownColumn _ => .key
  | raised kind _ => kind

/-- A call reports such a fault under its own name. -/
def isReportedByCall (f : Fault) : Bool :=
  match f.kind with
  | .index | .key | .failure => false
  | _ => true

/-! ## Wording -/

/-- The most decimal digits an integer may have in text. -/
def digitLimit : Nat := 4300

def message : Fault → String
  | missingOperand => "Missing operand"
  | unbalanced text => "Unbalanced parentheses in " ++ Text.quoted text
  | unknownSymbol text => "Unknown symbol " ++ Text.quoted text
  | notNumeric operator shown =>
    "Operator " ++ Text.quoted operator ++ " needs numeric operands, got " ++ shown
  | divisionByZero => "Division by zero"
  | moduloByZero => "Modulo by zero"
  | zeroToNegativePower => "Zero raised to a negative power"
  | complexPower => "Power produced a complex result"
  | unknownOperator symbol => "Unknown operator " ++ Text.quoted symbol
  | unknownComparison symbol => "Unknown comparison " ++ Text.quoted symbol
  | notALiteral shown => "Cannot pass " ++ shown ++ " to an Excel function"
  | unresolvedVariable name => "Unresolved variable: " ++ Text.quoted name
  | unsupportedFunction name => "Unsupported function: " ++ name
  | callFailed name cause => name ++ ": " ++ cause.message
  | wrongArity name arity => name ++ " requires " ++ arity.text
  | nonNumericArgument shown => "Non-numeric argument: " ++ shown
  | nothingToAverage => "AVERAGE: no numeric values"
  | negativeRoot => "SQRT: negative argument"
  | negativeBase => "POWER: negative base with fractional exponent"
  | remainderByZero => "MOD: division by zero"
  | domain => "math domain error"
  | range => "math range error"
  | integerTooLarge => "int too large to convert to float"
  | quotientTooLarge => "integer division result too large for a float"
  | doubleDivisionByZero => "float division by zero"
  | zeroDoubleToNegative => "0.0 cannot be raised to a negative power"
  | infinityToInteger => "cannot convert float infinity to integer"
  | nanToInteger => "cannot convert float NaN to integer"
  | outOfRange => "list index out of range"
  | tooManyParts => "too many values to unpack (expected 2)"
  | tooFewParts got =>
    "not enough values to unpack (expected 2, got " ++ toString got ++ ")"
  | tooManyDigits digits =>
    "Exceeds the limit (" ++ toString digitLimit ++ " digits) for integer string conversion"
      ++ (match digits with
          | some n => ": value has " ++ toString n ++ " digits"
          | none => "")
      ++ "; use sys.set_int_max_str_digits() to increase the limit"
  | invalidIndex shown => "Invalid index: " ++ shown
  | unknownAggregation shown => "Unknown aggregation: " ++ shown
  | unknownColumnType text => Text.quoted text ++ " is not a valid ColumnType"
  | unknownOrdering text => Text.quoted text ++ " is not a valid ColumnOrdering"
  | unknownFailureKind text => Text.quoted text ++ " is not a valid CalcErrorKind"
  | unknownColumn name => "Column '" ++ name ++ "' does not exist"
  | raised _ text => text

end Fault

end Worksheet
