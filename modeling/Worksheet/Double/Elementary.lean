-- Elementary functions. The machine computes them on its own numbers, so
-- this module packs a double into the 64 bits of the machine's number and
-- reads the answer back.
import Worksheet.Double.Arithmetic

namespace Worksheet.Double

/-! ## Machine numbers -/

/-- The 64 bits: sign, exponent and fraction. -/
def bits : Double → Nat
  | .nan => 9221120237041090560
  | .infinity s => (if s then 9223372036854775808 else 0) + 2047 * 4503599627370496
  | .finite s m e _ =>
    (if s then 9223372036854775808 else 0)
      + (if m < 4503599627370496 then m
         else (e + 1075).toNat * 4503599627370496 + (m - 4503599627370496))

/-- The double that 64 bits stand for. -/
def ofBits (b : Nat) : Double :=
  let s : Bool := 9223372036854775808 ≤ b
  let ex := b / 4503599627370496 % 2048
  let fraction := b % 4503599627370496
  if ex = 2047 then
    if fraction = 0 then .infinity s else .nan
  else if ex = 0 then assemble s fraction (-1074)
  else assemble s (fraction + 4503599627370496) ((ex : Int) - 1075)

def toMachine (x : Double) : Float := Float.ofBits (UInt64.ofNat x.bits)

def ofMachine (x : Float) : Double := ofBits x.toBits.toNat

/-- A function of one number, computed by the machine. -/
def viaMachine (f : Float → Float) (x : Double) : Double := ofMachine (f x.toMachine)

/-! ## The functions -/

def sqrt (x : Double) : Double := viaMachine Float.sqrt x
def exp (x : Double) : Double := viaMachine Float.exp x
def log (x : Double) : Double := viaMachine Float.log x
def log10 (x : Double) : Double := viaMachine Float.log10 x
def sin (x : Double) : Double := viaMachine Float.sin x
def cos (x : Double) : Double := viaMachine Float.cos x
def tan (x : Double) : Double := viaMachine Float.tan x

/-- The power of two finite numbers, as the machine computes it. -/
def machinePow (x y : Double) : Double := ofMachine (Float.pow x.toMachine y.toMachine)

/-! ## Named numbers -/

/-- The ratio of a circle's circumference to its diameter. -/
def pi : Double := assemble false 7074237752028440 (-51)

/-- The base of the natural logarithm. -/
def e : Double := assemble false 6121026514868073 (-51)

end Worksheet.Double
