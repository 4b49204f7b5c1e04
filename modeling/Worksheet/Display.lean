-- How values look. A cell shows a value for a reader: whole doubles lose
-- their point, and large numbers take an exponent. A message shows a value
-- with its kind visible: texts are quoted and doubles keep their point.
import Worksheet.Value

namespace Worksheet

/-! ## Integers -/

/-- The decimal digits of an integer. -/
def intDigits (n : Int) : String :=
  let ds := Nat.toDigits 10 n.natAbs
  String.ofList (if n < 0 then '-' :: ds else ds)

/-- The least magnitude whose digits no text may hold. -/
def digitBound : Nat := Nat.pow 10 Fault.digitLimit

/-- The integer in full, unless it has too many digits. -/
def intText (n : Int) : Except Fault String :=
  if digitBound ≤ n.natAbs then .error (.tooManyDigits none) else .ok (intDigits n)

/-- From this magnitude on a cell shows numbers with an exponent. -/
def exponentBound : Nat := 1000000000000000000000

/-- A double in a cell. -/
def Double.cellText (x : Double) : String :=
  if x.isIntegral ∧ x.value.num.natAbs < exponentBound then intDigits x.value.num
  else x.write Double.cellStyle

/-- An integer in a cell. A large one shows as the double it rounds to. -/
def intCellText (n : Int) : String :=
  if n.natAbs < exponentBound then intDigits n else (Double.ofInt n).cellText

namespace Value

/-! ## In messages -/

mutual

/-- A value as a message shows it. -/
def shown : Value → Except Fault String
  | .empty => .ok "None"
  | .bool b => .ok (if b then "True" else "False")
  | .int n => intText n
  | .double x => .ok x.literal
  | .text s => .ok (Text.quoted s)
  | .list items =>
    match shownAll items with
    | .error f => .error f
    | .ok texts => .ok (Text.bracketed texts)

def shownAll : List Value → Except Fault (List String)
  | [] => .ok []
  | v :: rest =>
    match shown v with
    | .error f => .error f
    | .ok s =>
      match shownAll rest with
      | .error f => .error f
      | .ok ss => .ok (s :: ss)

end

/-! ## In cells -/

/-- A value as a cell shows it; no value shows as the empty text. -/
def display : Value → Except Fault String
  | .empty => .ok ""
  | .bool b => .ok (if b then "true" else "false")
  | .int n => .ok (intCellText n)
  | .double x => .ok x.cellText
  | .text s => .ok s
  | .list items => shown (.list items)

end Value

end Worksheet
