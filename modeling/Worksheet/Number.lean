-- Numbers. A number is an integer of any size or a double. Integers stay
-- exact among themselves, the two kinds compare exactly, and an integer
-- beside a double becomes a double, if there is one near it.
import Worksheet.Double.Power
import Worksheet.Double.Text
import Worksheet.Fault

namespace Worksheet

/-! ## The type -/

/-- A number as arithmetic sees it. -/
inductive Number where
  | int (n : Int)
  | double (x : Double)
deriving DecidableEq

namespace Number

/-! ## Conversion and order -/

/-- The double nearest to a number. An integer past the largest double has
none. -/
def toDouble : Number → Except Fault Double
  | .int n =>
    match Double.ofInt? n with
    | some x => .ok x
    | none => .error .integerTooLarge
  | .double x => .ok x

/-- The place of a number on the extended line. -/
def place? : Number → Option (Int × Rat)
  | .int n => some (0, (n : Rat))
  | .double x => x.place?

/-- The exact order of two numbers of either kind. -/
def compare? (a b : Number) : Option Ordering :=
  match a.place?, b.place? with
  | some p, some q => some (Double.comparePlaces p q)
  | _, _ => none

def isZero : Number → Bool
  | .int n => n == 0
  | .double x => x.isZero

def isNegative (a : Number) : Bool := a.compare? (.int 0) == some .lt

/-! ## Arithmetic -/

/-- The negative of a number. -/
def neg : Number → Number
  | .int n => .int (-n)
  | .double x => .double x.neg

/-- A calculation on two integers stays exact; any other is done on
doubles. -/
def combine (exact : Int → Int → Int) (rounded : Double → Double → Double) :
    Number → Number → Except Fault Number
  | .int a, .int b => .ok (.int (exact a b))
  | a, b =>
    match a.toDouble with
    | .error f => .error f
    | .ok x =>
      match b.toDouble with
      | .error f => .error f
      | .ok y => .ok (.double (rounded x y))

/-- The quotient, always a double; that of two integers is rounded once. -/
def quotient : Number → Number → Except Fault Double
  | .int a, .int b =>
    let q := Double.ofQuotient a b
    if q.isFinite then .ok q else .error .quotientTooLarge
  | a, b =>
    match a.toDouble with
    | .error f => .error f
    | .ok x =>
      match b.toDouble with
      | .error f => .error f
      | .ok y => .ok (x.div y)

/-- What an operand past the range of doubles leaves of a power: an
infinity, below zero for a negative base and an odd exponent. -/
def saturate (a b : Number) : Except Fault Double :=
  if a.isNegative then
    match b.toDouble with
    | .error f => .error f
    | .ok y =>
      let odd : Bool := match b with
        | .int n => n % 2 == 1
        | .double y => y.isOdd
      .ok (.infinity (y.isIntegral && odd))
  else .ok (.infinity false)

/-- The power, always a double. One that is too large becomes infinite. -/
def power (a b : Number) : Except Fault Double :=
  if a.isZero && b.isNegative then .error .zeroToNegativePower
  else
    match a.toDouble, b.toDouble with
    | .ok x, .ok y =>
      match x.pow y with
      | .ok r => .ok r
      | .error .overflow => saturate a b
      | .error .zeroToNegative => .error .zeroDoubleToNegative
      | .error .notReal => .error .complexPower
    | _, _ => saturate a b

end Number

end Worksheet
