-- The rows of a column, write by write. A row holds what the newest write
-- that reached it left there, and nothing of the writes before. A load with
-- readable keys reaches every row, any other write its own row, and a write
-- that faults reaches none.
import Worksheet.Proofs.Display
import Worksheet.Proofs.OrderedMap
import Worksheet.Proofs.Table.Cells

namespace Worksheet.Column

/-! ## Writes -/

/-- A write to the rows of a column. -/
inductive Write where
  | load (rows : List (Value × Value))
  | evaluate (row : Int) (vars : Variables) (ev : Evaluator)
  | markFailed (row : Int) (failure : Failure)
  | record (row : Int) (result : Outcome)

/-- What a write of one row comes to: it stores nothing before it has the text
to store. -/
def Written.ofRow (c : Column) : Except Fault Column → Written
  | .ok c' => ⟨c', none⟩
  | .error f => ⟨c, some f⟩

/-- The column after a write, beside the fault of the write if it met one. -/
def write (c : Column) : Write → Written
  | .load rows => c.load rows
  | .evaluate row vars ev => .ofRow c ((c.evaluateRow row vars ev).map Prod.fst)
  | .markFailed row f => ⟨c.markFailed row f, none⟩
  | .record row result => .ofRow c (c.record row result)

/-- What a write leaves in a row: a value of the loaded rows or none of them,
or an outcome. -/
inductive Entry where
  | loaded (value? : Option Value)
  | recorded (result : Outcome)
deriving DecidableEq

/-- The value and the failure that a row has from an entry. -/
def Entry.stored : Entry → Option Value × Option Failure
  | .loaded value? => (value?, none)
  | .recorded result => (result.display.toOption.map .text, result.failure?)

/-- The key of the pair names the row. -/
def namesRow (row : Int) (p : Value × Value) : Bool :=
  match p.1.index with
  | .ok i => (i : Int) == row
  | .error _ => false

/-- The value of the last pair whose key names the row. -/
def loadedValue? (row : Int) (rows : List (Value × Value)) : Option Value :=
  (rows.reverse.find? (namesRow row)).map Prod.snd

/-- An outcome without a text cannot be recorded. -/
def recorded? (result : Outcome) : Option Entry :=
  match result.display with
  | .ok _ => some (.recorded result)
  | .error _ => none

/-- What a write leaves in a row of a column with this expression, if it
reaches the row. -/
def Write.entryAt? (expression : String) (row : Int) : Write → Option Entry
  | .load rows =>
    if ∀ p ∈ rows, p.1.index.isOk = true then some (.loaded (loadedValue? row rows)) else none
  | .evaluate r vars ev =>
    if r = row then (ev.evaluate expression vars).toOption.bind recorded? else none
  | .markFailed r f => if r = row then some (.recorded (.failure f)) else none
  | .record r result => if r = row then recorded? result else none

/-- From the one column to the other each row takes the entry that is given
for it, and a row without an entry stays as it was. -/
structure Leaves (c c' : Column) (entryAt? : Int → Option Entry) : Prop where
  same : c'.withoutRows = c.withoutRows
  reached : ∀ row e, entryAt? row = some e → c'.stored row = e.stored
  kept : ∀ row, entryAt? row = none → c'.stored row = c.stored row

/-- A fault of a write leaves nothing anywhere. -/
theorem Leaves.none (c : Column) : Leaves c c fun _ => .none := ⟨rfl, nofun, fun _ _ => rfl⟩

end Worksheet.Column
