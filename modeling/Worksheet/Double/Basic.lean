-- Double-precision numbers. A finite double is a sign, a significand and
-- a power of two, in the one form that IEEE 754 gives it. Every finite
-- double is an exact rational, and a rational becomes a double by one
-- rounding: to the nearest, a tie to the even significand.

namespace Worksheet

/-! ## The type -/

/-- The significand and exponent of a binary64 number: 53 bits at most,
and all 53 unless the exponent is the least. -/
def Canonical (m : Nat) (e : Int) : Prop :=
  m < 9007199254740992 ∧ -1074 ≤ e ∧ e ≤ 971 ∧ (4503599627370496 ≤ m ∨ e = -1074)

instance (m : Nat) (e : Int) : Decidable (Canonical m e) :=
  inferInstanceAs (Decidable (_ ∧ _ ∧ _ ∧ (_ ∨ _)))

/-- A binary64 number. There is one value that is not a number. -/
inductive Double where
  | nan
  | infinity (negative : Bool)
  | finite (negative : Bool) (significand : Nat) (exponent : Int)
      (canonical : Canonical significand exponent)
deriving DecidableEq

namespace Double

/-- Zero with a sign. -/
def zero (negative : Bool) : Double := .finite negative 0 (-1074) (by decide)

/-- The number with this sign, significand and exponent, or the infinity
of that sign when the exponent is too large. -/
def assemble (negative : Bool) (m : Nat) (e : Int) : Double :=
  if h : Canonical m e then .finite negative m e h else .infinity negative

/-! ## Kinds of numbers -/

def isNaN : Double → Bool
  | .nan => true
  | _ => false

def isInfinite : Double → Bool
  | .infinity _ => true
  | _ => false

def isFinite : Double → Bool
  | .finite .. => true
  | _ => false

/-- The sign bit; the value that is not a number has none. -/
def isNegative : Double → Bool
  | .nan => false
  | .infinity s => s
  | .finite s .. => s

/-- The number is a zero of either sign. -/
def isZero : Double → Bool
  | .finite _ m _ _ => m == 0
  | _ => false

/-! ## The exact value -/

/-- The magnitude of a finite number. -/
def magnitude (m : Nat) (e : Int) : Rat := (m : Rat) * (2 : Rat) ^ e

/-- The exact value of a finite number; 0 for the others. -/
def value : Double → Rat
  | .finite s m e _ => if s then -(magnitude m e) else magnitude m e
  | _ => 0

/-- A finite number without a fractional part. -/
def isIntegral : Double → Bool
  | .finite s m e h => (value (.finite s m e h)).den == 1
  | _ => false

/-- The magnitude of a finite number; 0 for the others. -/
def absValue : Double → Rat
  | .finite _ m e _ => magnitude m e
  | _ => 0

/-! ## Rounding -/

/-- The natural number nearest to a rational that is not negative, the
even one of two. -/
def nearestEven (q : Rat) : Nat :=
  let n := q.floor.toNat
  let rest := q - (n : Rat)
  if rest < 1 / 2 then n
  else if 1 / 2 < rest then n + 1
  else if n % 2 = 0 then n else n + 1

/-- The exponent of the unit in which a positive magnitude is rounded:
it leaves 53 bits before the point, or is the least exponent. -/
def unitExponent (q : Rat) : Int :=
  let e : Int := (q.num.natAbs.log2 : Int) - (q.den.log2 : Int)
  max (-1074) (if q < (2 : Rat) ^ e then e - 53 else e - 52)

/-- The double nearest to a magnitude, with a sign. A magnitude past the
largest double becomes infinite. -/
def ofMagnitude (negative : Bool) (q : Rat) : Double :=
  if q.num ≤ 0 then zero negative
  else
    let e := unitExponent q
    let m := nearestEven (q / (2 : Rat) ^ e)
    if m = 9007199254740992 then assemble negative 4503599627370496 (e + 1)
    else assemble negative m e

/-- The double nearest to a rational; zero is positive. -/
def ofRat (q : Rat) : Double :=
  if q.num < 0 then ofMagnitude true (-q) else ofMagnitude false q

/-- The double nearest to an integer; past the largest double it is an
infinity. -/
def ofInt (n : Int) : Double := ofRat (n : Rat)

/-- The double nearest to an integer, if there is a finite one. -/
def ofInt? (n : Int) : Option Double :=
  let d := ofInt n
  if d.isFinite then some d else none

/-- One. -/
def one : Double := ofInt 1

end Double

end Worksheet
