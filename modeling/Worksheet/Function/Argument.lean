-- Arguments. The standard functions see their arguments as doubles. A list
-- counts as its items, wherever it stands; a truth value counts as one or
-- zero.
import Worksheet.Display

namespace Worksheet

/-! ## Doubles from values -/

namespace Value

mutual

/-- The doubles in a value, from the first to the last. -/
def doubles : Value → Except Fault (List Double)
  | .bool b => .ok [if b then Double.one else Double.zero false]
  | .int n => (Number.toDouble (.int n)).map fun x => [x]
  | .double x => .ok [x]
  | .list items => doublesOf items
  | v =>
    match v.shown with
    | .ok shown => .error (.nonNumericArgument shown)
    | .error f => .error f

/-- The doubles in a list of values. -/
def doublesOf : List Value → Except Fault (List Double)
  | [] => .ok []
  | v :: rest =>
    match doubles v with
    | .error f => .error f
    | .ok xs =>
      match doublesOf rest with
      | .error f => .error f
      | .ok ys => .ok (xs ++ ys)

end

end Value

/-! ## Shapes of argument lists -/

/-- The double of a single argument. -/
def oneDouble (name : String) (args : List Value) : Except Fault Double :=
  if args.length ≠ 1 then .error (.wrongArity name .one)
  else
    match Value.doublesOf args with
    | .error f => .error f
    | .ok (x :: _) => .ok x
    | .ok [] => .error .outOfRange

/-- The doubles of two arguments. -/
def twoDoubles (name : String) (args : List Value) : Except Fault (Double × Double) :=
  if args.length ≠ 2 then .error (.wrongArity name .two)
  else
    match Value.doublesOf args with
    | .error f => .error f
    | .ok [x, y] => .ok (x, y)
    | .ok (_ :: _ :: _) => .error .tooManyParts
    | .ok xs => .error (.tooFewParts xs.length)

/-- The doubles of one or two arguments. -/
def upToTwo (name : String) (args : List Value) : Except Fault (List Double) :=
  if args.length < 1 ∨ 2 < args.length then .error (.wrongArity name .oneOrTwo)
  else Value.doublesOf args

/-! ## Whole numbers from doubles -/

/-- A whole number taken from a finite double. -/
def Double.whole (round : Rat → Int) : Double → Except Fault Int
  | .nan => .error .nanToInteger
  | .infinity _ => .error .infinityToInteger
  | x => .ok (round x.value)

def Double.floor (x : Double) : Except Fault Int := x.whole Rat.floor
def Double.ceil (x : Double) : Except Fault Int := x.whole Rat.ceil
def Double.trunc (x : Double) : Except Fault Int := x.whole Double.truncRat

end Worksheet
