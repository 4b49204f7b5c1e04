-- The rows of a column. Loading replaces all rows at once. Evaluating a
-- row stores what it shows, and stores or forgets its failure with it, so
-- the two never disagree.
import Worksheet.Column.Basic
import Worksheet.Evaluator
import Worksheet.Index

namespace Worksheet.Column

/-! ## Writing rows -/

/-- Rows that replace all others. Their failures are forgotten. -/
def withRows (c : Column) (rows : List (Nat × Value)) : Column :=
  { c with
    rows := OrderedMap.ofList (rows.map fun p => ((p.1 : Int), p.2))
    failures := OrderedMap.empty }

/-- A column after a write, and the fault of the write if it met one. -/
structure Written where
  column : Column
  fault? : Option Fault

/-- Replaces all rows. A later row of an index takes the place of an
earlier one; a key that names no index stops it before the first row is
replaced. -/
def load (c : Column) (rows : List (Value × Value)) : Written :=
  match Value.indexedRows rows with
  | .error f => ⟨c, some f⟩
  | .ok pairs => ⟨c.withRows pairs, none⟩

/-- Stores what a row shows, and its failure if it failed. -/
def record (c : Column) (row : Int) (result : Outcome) : Except Fault Column :=
  result.display.map fun text =>
    { c with
      rows := c.rows.insert row (.text text)
      failures :=
        match result with
        | .value _ => c.failures.erase row
        | .failure f => c.failures.insert row f }

/-- Evaluates the expression for one row and records the outcome. -/
def evaluateRow (c : Column) (row : Int) (vars : Variables) (ev : Evaluator) :
    Except Fault (Column × Outcome) :=
  match ev.evaluate c.expression vars with
  | .error f => .error f
  | .ok result => (c.record row result).map fun c => (c, result)

/-- Records a failure for one row. -/
def markFailed (c : Column) (row : Int) (failure : Failure) : Column :=
  { c with
    rows := c.rows.insert row (.text failedText)
    failures := c.failures.insert row failure }

/-! ## Reading rows -/

/-- What a row shows; nothing if it is not set. -/
def textAt (c : Column) (row : Int) : Except Fault String :=
  match c.rows.get? row with
  | none => .ok ""
  | some v => v.display

/-- The failure of a row that is not set. It tells the number of the row,
which must not have too many digits. -/
def unsetFailure (row : Int) : Except Fault Failure :=
  (intText row).map fun digits => ⟨.emptyResult, "Row " ++ digits ++ " is unset"⟩

/-- The outcome of a row: its failure, or its value as it is stored. -/
def outcomeAt (c : Column) (row : Int) : Except Fault Outcome :=
  match c.failures.get? row with
  | some f => .ok (.failure f)
  | none =>
    match c.rows.get? row with
    | none => (unsetFailure row).map Outcome.failure
    | some v => .ok (.value v)

/-- The summary of all rows. -/
def summary [Reductions] (c : Column) : Summary := c.aggregation.summarise c.rows.values

end Worksheet.Column
