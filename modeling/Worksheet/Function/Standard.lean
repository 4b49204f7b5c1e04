-- The standard functions: arithmetic, rounding, trigonometry and
-- statistics. All of them calculate in doubles, and each stands in the
-- table with its category.
import Worksheet.Function.Argument
import Worksheet.Function.Registry

namespace Worksheet.Standard

/-! ## Arithmetic -/

/-- A function of one double. -/
def unary (name : String) (f : Double → Except Fault Double) : Function := fun args =>
  match oneDouble name args with
  | .error e => .error e
  | .ok x => (f x).map Value.double

/-- One with the sign of a number; zero for the zeros and for what is not a
number. -/
def sign (x : Double) : Double :=
  match x.compare? (.zero false) with
  | some .gt => Double.one
  | some .lt => Double.one.neg
  | _ => .zero false

/-- The number less the divisor times the quotient rounded down. -/
def remainder (x y : Double) : Except Fault Double :=
  if y.isZero then .error .remainderByZero
  else
    match (x.div y).floor with
    | .error f => .error f
    | .ok n => .ok (x.sub (y.mul (Double.ofInt n)))

def mod : Function := fun args =>
  match twoDoubles "MOD" args with
  | .error f => .error f
  | .ok (x, y) => (remainder x y).map Value.double

/-- The power of two doubles. A negative base takes whole exponents only;
a power that is too large becomes infinite. -/
def powerOf (x y : Double) : Except Fault Double :=
  let negative := x.lt (.zero false)
  if negative && !y.isIntegral then .error .negativeBase
  else
    match x.pow y with
    | .ok r => .ok r
    | .error .overflow => .ok (.infinity (negative && y.isOdd))
    | .error .zeroToNegative => .error .zeroDoubleToNegative
    | .error .notReal => .error .complexPower

def power : Function := fun args =>
  match twoDoubles "POWER" args with
  | .error f => .error f
  | .ok (x, y) => (powerOf x y).map Value.double

def squareRoot (x : Double) : Except Fault Double :=
  if x.lt (.zero false) then .error .negativeRoot else .ok x.sqrt

/-- The exponential; a finite number must give a finite one. -/
def exponential (x : Double) : Except Fault Double :=
  let r := x.exp
  if x.isFinite && r.isInfinite then .error .range else .ok r

/-- A logarithm exists for what is above zero, and for what is not a
number. -/
def logarithm (log : Double → Double) (x : Double) : Except Fault Double :=
  if x.isNaN || (Double.zero false).lt x then .ok (log x) else .error .domain

/-- The quotient of two logarithms, the number's taken first. -/
def logarithmTo (x base : Double) : Except Fault Double :=
  match logarithm Double.log x with
  | .error f => .error f
  | .ok a =>
    match logarithm Double.log base with
    | .error f => .error f
    | .ok b => if b.isZero then .error .doubleDivisionByZero else .ok (a.div b)

/-- The natural logarithm, or with a second argument the one to that base. -/
def log : Function := fun args =>
  match upToTwo "LOG" args with
  | .error f => .error f
  | .ok [] => .error .outOfRange
  | .ok [x, base] => (logarithmTo x base).map Value.double
  | .ok (x :: _) => (logarithm Double.log x).map Value.double

/-! ## Rounding -/

/-- The number and the count of places after the point. -/
def places (name : String) (args : List Value) : Except Fault (Double × Int) :=
  match upToTwo name args with
  | .error f => .error f
  | .ok [] => .error .outOfRange
  | .ok [x] => .ok (x, 0)
  | .ok (x :: y :: _) => y.trunc.map fun n => (x, n)

/-- Ten to the count of places: an integer, or a double below one. -/
def scale (places : Int) : Number :=
  if places < 0 then .double (Double.machinePow (Double.ofInt 10) (Double.ofInt places))
  else .int (Nat.pow 10 places.toNat)

/-- The scale as a factor. More than four hundred places are past the range
of doubles, and the power of ten is not computed. -/
def scaleFactor (places : Int) : Except Fault Double :=
  if 400 < places then .error .integerTooLarge else (scale places).toDouble

/-- A whole number of units of the last place, brought back to scale. -/
def unscale (n : Int) (places : Int) : Except Fault Double :=
  let s := scale places
  if s.isZero then .error .doubleDivisionByZero else (Number.int n).quotient s

/-- Scales, takes a whole number, and scales back. -/
def roundAt (whole : Double → Except Fault Int) (x : Double) (places : Int) :
    Except Fault Double :=
  match scaleFactor places with
  | .error f => .error f
  | .ok s =>
    match whole (x.mul s) with
    | .error f => .error f
    | .ok n => unscale n places

/-- One half. -/
def half : Double := Double.ofRat (1 / 2)

/-- To the nearest, halves away from zero. -/
def roundNearest (x : Double) (places : Int) : Except Fault Double :=
  (roundAt (fun y => (y.add half).floor) x.abs places).map (Double.withSign x.isNegative)

/-- Away from zero. -/
def roundAway (x : Double) (places : Int) : Except Fault Double :=
  (roundAt Double.ceil x.abs places).map (Double.withSign x.isNegative)

/-- Toward zero. -/
def roundToward (x : Double) (places : Int) : Except Fault Double :=
  if places = 0 then x.trunc.map Double.ofInt else roundAt Double.trunc x places

/-- A rounding function of a number and a count of places. -/
def rounding (name : String) (f : Double → Int → Except Fault Double) : Function := fun args =>
  match places name args with
  | .error e => .error e
  | .ok (x, n) => (f x n).map Value.double

/-! ## Trigonometry -/

/-- An angle must not be infinite. -/
def ofAngle (f : Double → Double) (x : Double) : Except Fault Double :=
  if x.isInfinite then .error .domain else .ok (f x)

/-! ## Statistics -/

/-- The sum from the left, from zero. -/
def total (xs : List Double) : Double := xs.foldl Double.add (.zero false)

/-- The sum of nothing is the integer zero. -/
def sum : Function := fun args =>
  match Value.doublesOf args with
  | .error f => .error f
  | .ok [] => .ok (.int 0)
  | .ok xs => .ok (.double (total xs))

/-- The first number that no later one precedes strictly. -/
def extreme (before : Double → Double → Bool) (x : Double) (xs : List Double) : Double :=
  xs.foldl (fun best y => if before y best then y else best) x

def extremum (name : String) (before : Double → Double → Bool) : Function := fun args =>
  match Value.doublesOf args with
  | .error f => .error f
  | .ok [] => .error (.wrongArity name .atLeastOne)
  | .ok (x :: xs) => .ok (.double (extreme before x xs))

def average : Function := fun args =>
  match Value.doublesOf args with
  | .error f => .error f
  | .ok [] => .error .nothingToAverage
  | .ok xs => .ok (.double ((total xs).div (Double.ofInt xs.length)))

/-! ## The table -/

inductive Category where
  | arithmetic
  | rounding
  | trigonometry
  | statistical
deriving DecidableEq

def Category.name : Category → String
  | .arithmetic => "arithmetic"
  | .rounding => "rounding"
  | .trigonometry => "trigonometry"
  | .statistical => "statistical"

/-- A standard function in the table. -/
structure Entry where
  name : String
  category : Category
  run : Function

/-- All standard functions. -/
def table : List Entry := [
  ⟨"ABS", .arithmetic, unary "ABS" fun x => .ok x.abs⟩,
  ⟨"SIGN", .arithmetic, unary "SIGN" fun x => .ok (sign x)⟩,
  ⟨"MOD", .arithmetic, mod⟩,
  ⟨"POW", .arithmetic, power⟩,
  ⟨"POWER", .arithmetic, power⟩,
  ⟨"SQRT", .arithmetic, unary "SQRT" squareRoot⟩,
  ⟨"EXP", .arithmetic, unary "EXP" exponential⟩,
  ⟨"LOG", .arithmetic, log⟩,
  ⟨"LN", .arithmetic, unary "LN" (logarithm Double.log)⟩,
  ⟨"LOG10", .arithmetic, unary "LOG10" (logarithm Double.log10)⟩,
  ⟨"ROUND", .rounding, rounding "ROUND" roundNearest⟩,
  ⟨"ROUNDUP", .rounding, rounding "ROUNDUP" roundAway⟩,
  ⟨"ROUNDDOWN", .rounding, rounding "ROUNDDOWN" roundToward⟩,
  ⟨"INT", .rounding, unary "INT" fun x => x.floor.map Double.ofInt⟩,
  ⟨"FLOOR", .rounding, unary "INT" fun x => x.floor.map Double.ofInt⟩,
  ⟨"CEIL", .rounding, unary "CEIL" fun x => x.ceil.map Double.ofInt⟩,
  ⟨"SIN", .trigonometry, unary "SIN" (ofAngle Double.sin)⟩,
  ⟨"COS", .trigonometry, unary "COS" (ofAngle Double.cos)⟩,
  ⟨"TAN", .trigonometry, unary "TAN" (ofAngle Double.tan)⟩,
  ⟨"SUM", .statistical, sum⟩,
  ⟨"MIN", .statistical, extremum "MIN" Double.lt⟩,
  ⟨"MAX", .statistical, extremum "MAX" fun y best => best.lt y⟩,
  ⟨"MEAN", .statistical, average⟩,
  ⟨"AVERAGE", .statistical, average⟩]

/-- A standard function has this name, in any case. -/
def isStandard (name : String) : Bool := table.any fun e => e.name == Text.upper name

/-- The registry of the standard functions. -/
def registry : Registry :=
  table.foldl (fun r e => ⟨r.functions.insert e.name e.run⟩) Registry.empty

end Worksheet.Standard
