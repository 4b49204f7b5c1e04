-- Row and column indices. A key of raw data names an index: a natural
-- number, or a text of decimal digits with blanks around it. Several texts
-- may name one index.
import Worksheet.Display

namespace Worksheet.Value

/-! ## Keys -/

/-- The fault of a key that names no index. -/
def invalidIndex (key : Value) : Fault :=
  match key.shown with
  | .ok shown => .invalidIndex shown
  | .error f => f

/-- The index that a key names. -/
def index : Value → Except Fault Nat
  | .int n => if n < 0 then .error (invalidIndex (.int n)) else .ok n.toNat
  | .text s =>
    let ds := Text.trim s.toList
    if !Text.isDigitRun ds then .error (invalidIndex (.text s))
    else if Fault.digitLimit < ds.length then .error (.tooManyDigits (some ds.length))
    else .ok (Text.digitRunValue ds)
  | key => .error (invalidIndex key)

/-- A row with its key read as an index. -/
def indexedRow (row : Value × Value) : Except Fault (Nat × Value) :=
  match row.1.index with
  | .error f => .error f
  | .ok i => .ok (i, row.2)

/-- Rows with their keys read as indices, in the same order. The first key
that names no index ends it. -/
def indexedRows (rows : List (Value × Value)) : Except Fault (List (Nat × Value)) :=
  rows.mapM indexedRow

end Worksheet.Value
