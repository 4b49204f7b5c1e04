-- Decimals and doubles. A decimal is a natural number times a power of
-- ten. Each decimal has one nearest double; each finite double has a
-- shortest decimal that leads back to it.
import Worksheet.Double.Arithmetic

namespace Worksheet

/-! ## Decimals -/

/-- The number `digits · 10 ^ exponent`. -/
structure Decimal where
  digits : Nat
  exponent : Int
deriving DecidableEq

namespace Decimal

def value (d : Decimal) : Rat := (d.digits : Rat) * (10 : Rat) ^ d.exponent

/-- The double nearest to a decimal, with a sign. An exponent far past the
range of doubles is answered without the power of ten. -/
def toDouble (negative : Bool) (d : Decimal) : Double :=
  if d.digits = 0 then .zero negative
  else if 400 < d.exponent then .infinity negative
  else if d.exponent + (d.digits.log2 : Int) < -400 then .zero negative
  else .ofMagnitude negative d.value

end Decimal

namespace Double

/-! ## The shortest decimal that reads back -/

/-- The number of digits before the point of a positive rational; zero or
less when it is below one tenth. -/
def decimalPlace (q : Rat) : Int :=
  let a : Int := (q.num.natAbs.log2 : Int) - (q.den.log2 : Int)
  let f : Int := (a - 1) * 30103 / 100000
  if q < (10 : Rat) ^ (f + 1) then f + 1 else f + 2

/-- Of the two neighbours of a magnitude among the decimals of `n` digits,
the one that reads back; of two such the nearer, and of two equally near
the even one. -/
def nearDecimal? (x : Double) (n : Nat) : Option Decimal :=
  let q := x.absValue
  let k := decimalPlace q - (n : Int)
  let lo := (q / (10 : Rat) ^ k).floor.toNat
  let below : Decimal := ⟨lo, k⟩
  let above : Decimal := ⟨lo + 1, k⟩
  if below.toDouble false = x.abs then
    if above.toDouble false = x.abs then
      if q - below.value < above.value - q then some below
      else if above.value - q < q - below.value then some above
      else if lo % 2 = 0 then some below else some above
    else some below
  else if above.toDouble false = x.abs then some above
  else none

/-- All the digits of a finite number. -/
def exactDecimal : Double → Decimal
  | .finite _ m e _ =>
    if 0 ≤ e then ⟨m * Nat.pow 2 e.toNat, 0⟩ else ⟨m * Nat.pow 5 (-e).toNat, e⟩
  | _ => ⟨0, 0⟩

/-- The decimal of fewest digits that reads back as the magnitude. -/
def shortest (x : Double) : Decimal :=
  if x.isZero then ⟨0, 0⟩
  else ((List.range 17).findSome? fun n => x.nearDecimal? (n + 1)).getD x.exactDecimal

end Double

end Worksheet
