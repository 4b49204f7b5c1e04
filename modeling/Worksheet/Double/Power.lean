-- Powers of doubles. The special cases come first: an exponent of zero, a
-- base of one, the infinities and the zeros. What is left is a positive
-- base other than one and a finite exponent, and the machine answers it.
import Worksheet.Double.Elementary

namespace Worksheet.Double

/-! ## Why a power has no value -/

/-- The reasons for which a power is not a double. -/
inductive PowerFault where
  /-- The magnitude is past the largest double. -/
  | overflow
  /-- Zero has no negative power. -/
  | zeroToNegative
  /-- A negative base with a fractional exponent has no real power. -/
  | notReal
deriving DecidableEq

/-! ## Parity -/

/-- A whole number that two does not divide. -/
def isOdd (x : Double) : Bool := x.isIntegral && x.value.num % 2 == 1

/-! ## The power -/

/-- The power of a positive magnitude: one to any exponent is one, and an
infinite answer to finite numbers is an overflow. -/
def positivePow (x y : Double) : Except PowerFault Double :=
  if x = one then .ok one
  else
    let r := machinePow x y
    if r.isInfinite then .error .overflow else .ok r

/-- The power of a finite base that is not zero. An odd exponent keeps the
sign of the base. -/
def finitePow (x y : Double) : Except PowerFault Double :=
  if !x.isNegative then positivePow x y
  else if y.isIntegral then
    (positivePow x.abs y).map fun r => if y.isOdd then r.neg else r
  else
    match positivePow x.abs y with
    | .error f => .error f
    | .ok _ => .error .notReal

/-- The power of two doubles. -/
def pow (x y : Double) : Except PowerFault Double :=
  if y.isZero then .ok one
  else match x, y with
    | .nan, _ => .ok .nan
    | x, .nan => .ok (if x = one then one else .nan)
    | x, .infinity s =>
      match x.abs.compare? one with
      | some .eq => .ok one
      | some .gt => .ok (if s then zero false else .infinity false)
      | _ => .ok (if s then .infinity false else zero false)
    | .infinity s, y =>
      if y.isNegative then .ok (zero (s && y.isOdd)) else .ok (.infinity (s && y.isOdd))
    | x, y =>
      if x.isZero then
        if y.isNegative then .error .zeroToNegative else .ok (zero (x.isNegative && y.isOdd))
      else finitePow x y

end Worksheet.Double
