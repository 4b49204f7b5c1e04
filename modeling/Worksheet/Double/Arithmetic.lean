-- Arithmetic on doubles. Each operation takes the exact rational result
-- and rounds it once. The infinities and the value that is not a number
-- follow IEEE 754.
import Worksheet.Double.Basic

namespace Worksheet.Double

/-! ## Signs -/

/-- The same number with the other sign. -/
def neg : Double → Double
  | .nan => .nan
  | .infinity s => .infinity (!s)
  | .finite s m e h => .finite (!s) m e h

/-- The same magnitude with the given sign. -/
def withSign (negative : Bool) : Double → Double
  | .nan => .nan
  | .infinity _ => .infinity negative
  | .finite _ m e h => .finite negative m e h

/-- The magnitude. -/
def abs (x : Double) : Double := withSign false x

/-! ## The four operations -/

/-- The sum. An exact zero is negative only if both parts are. -/
def add : Double → Double → Double
  | .nan, _ => .nan
  | _, .nan => .nan
  | .infinity s, .infinity t => if s = t then .infinity s else .nan
  | .infinity s, _ => .infinity s
  | _, .infinity t => .infinity t
  | .finite s m e h, .finite t n f k =>
    let q := (finite s m e h).value + (finite t n f k).value
    if q = 0 then zero (s && t) else ofRat q

/-- The difference. -/
def sub (x y : Double) : Double := add x (neg y)

/-- The product. Its sign is negative if exactly one factor is. -/
def mul : Double → Double → Double
  | .nan, _ => .nan
  | _, .nan => .nan
  | .infinity s, y => if y.isZero then .nan else .infinity (s != y.isNegative)
  | x, .infinity t => if x.isZero then .nan else .infinity (x.isNegative != t)
  | .finite s m e _, .finite t n f _ => ofMagnitude (s != t) (magnitude m e * magnitude n f)

/-- The quotient. A number over zero is infinite, zero over zero is not a
number. -/
def div : Double → Double → Double
  | .nan, _ => .nan
  | _, .nan => .nan
  | .infinity _, .infinity _ => .nan
  | .infinity s, y => .infinity (s != y.isNegative)
  | x, .infinity t => zero (x.isNegative != t)
  | .finite s m e _, .finite t n f _ =>
    if n = 0 then if m = 0 then .nan else .infinity (s != t)
    else ofMagnitude (s != t) (magnitude m e / magnitude n f)

/-- The double nearest to the quotient of two integers. A zero quotient
is negative if exactly one of the two is below zero. -/
def ofQuotient (a b : Int) : Double :=
  ofMagnitude (decide (a < 0) != decide (b < 0)) ((a.natAbs : Rat) / (b.natAbs : Rat))

/-! ## Whole parts -/

/-- The rational without its fractional part, toward zero. -/
def truncRat (q : Rat) : Int := if q.num < 0 then q.ceil else q.floor

/-- The remainder of a division that rounds the quotient down: it has the
sign of the divisor, also when it is zero. -/
def mod : Double → Double → Double
  | .nan, _ => .nan
  | _, .nan => .nan
  | .infinity _, _ => .nan
  | .finite s m e h, .infinity t =>
    if m = 0 then zero t
    else if s = t then .finite s m e h else .infinity t
  | .finite s m e h, .finite t n f k =>
    if n = 0 then .nan
    else
      let a := (finite s m e h).value
      let b := (finite t n f k).value
      let r := a - b * ((truncRat (a / b) : Int) : Rat)
      if r = 0 then zero t
      else if decide (r < 0) = t then ofRat r
      else add (ofRat r) (.finite t n f k)

/-! ## Order -/

/-- The place of a number on the extended line: below all finite numbers,
among them, or above them. -/
def place? : Double → Option (Int × Rat)
  | .nan => none
  | .infinity true => some (-1, 0)
  | .infinity false => some (1, 0)
  | x => some (0, x.value)

/-- The order of two places. -/
def comparePlaces (p q : Int × Rat) : Ordering :=
  if p.1 < q.1 then .lt
  else if q.1 < p.1 then .gt
  else if p.2 < q.2 then .lt
  else if q.2 < p.2 then .gt
  else .eq

/-- The order of two numbers; with a value that is not a number there is
none. -/
def compare? (x y : Double) : Option Ordering :=
  match x.place?, y.place? with
  | some p, some q => some (comparePlaces p q)
  | _, _ => none

def lt (x y : Double) : Bool := x.compare? y == some .lt

end Worksheet.Double
