-- Recalculation. The raw data is bound to the columns again, and then each
-- cell of a calculated column is evaluated with the texts that the columns
-- it reads show in the same row. Columns that wait for themselves fail.
import Worksheet.ReferenceGraph
import Worksheet.Table.Basic

namespace Worksheet.Table

/-! ## Variables of a cell -/

/-- What names show in a row, for the names that stand for a column. -/
def readNames (t : Table) (row : Int) : List String → Except Fault (List (String × Value))
  | [] => .ok []
  | name :: rest =>
    match (t.position? name).bind fun i => t.columns[i]? with
    | none => t.readNames row rest
    | some c =>
      match c.textAt row with
      | .error f => .error f
      | .ok text => (t.readNames row rest).map fun vs => (name, Value.text text) :: vs

/-- The variables of a column in a row. -/
def variablesAt (t : Table) (row : Int) (c : Column) : Except Fault Variables :=
  (t.readNames row c.reads).map OrderedMap.ofList

/-! ## Raw rows -/

/-- The column with the raw rows of its position, if there are any. -/
def bindRaw (data : RawData) (c : Column) (i : Nat) : Column :=
  match data.get? i with
  | none => c
  | some rows => c.withRows rows.entries

/-- The largest of row indices, or zero. -/
def largest (rows : List Nat) : Nat := rows.foldl max 0

/-- The last row of the data that is bound to columns. -/
def boundLastRow (t : Table) : Nat :=
  largest ((List.range t.columns.length).map fun i =>
    match t.data.get? i with
    | none => 0
    | some rows => largest rows.keys)

/-- Gives the columns their raw rows. Columns without raw data keep their
rows. -/
def bindData (t : Table) : Table :=
  { t with
    columns := t.columns.zipIdx.map fun p => bindRaw t.data p.1 p.2
    lastRow := t.boundLastRow
    hasSummaries := t.columns.any fun c => !decide (c.aggregation = .none) }

/-! ## The plan -/

/-- The positions of the calculated columns. -/
def calculatedPositions (t : Table) : List Nat :=
  (t.columns.zipIdx.filter fun p => p.1.isCalculated).map Prod.snd

/-- The graph of the calculated columns: each reads the columns that the
names in its expression stand for. -/
def graph (t : Table) : ReferenceGraph Nat :=
  t.calculatedPositions.foldl
    (fun g i =>
      match t.columns[i]? with
      | none => g
      | some c => g.register i (c.reads.filterMap t.position?))
    ReferenceGraph.empty

/-- The columns to evaluate in order, those that fail for a cycle, and
those of them that are on a cycle themselves, by position. -/
structure Plan where
  order : List Nat
  blocked : List Nat
  onCycle : List Nat
deriving DecidableEq

def plan (t : Table) : Plan :=
  match t.schedule with
  | .declaration => ⟨t.calculatedPositions, [], []⟩
  | .dependency =>
    let g := t.graph
    let blocked := g.blocked
    ⟨g.order, blocked.mergeSort, if blocked.isEmpty then [] else g.onCycle⟩

/-- The names of the columns at some positions. -/
def namesAt (t : Table) (positions : List Nat) : List String :=
  positions.filterMap fun i => t.columns[i]?.map Column.name

/-- Names in the order of their characters, as a message lists them. -/
def listed (names : List String) : String :=
  Text.bracketed ((names.mergeSort fun a b => decide (a ≤ b)).map Text.quoted)

/-- The warning about reference cycles. -/
def warning? (t : Table) (p : Plan) : Option String :=
  if p.blocked.isEmpty then none
  else
    some ("Circular reference between calculated columns " ++ listed (t.namesAt p.onCycle)
      ++ "; also failing dependents "
      ++ listed (t.namesAt (p.blocked.filter fun i => !decide (i ∈ p.onCycle))))

/-! ## Cells -/

/-- The rows of a table, from zero to the last. -/
def rowIndices (t : Table) : List Int := (List.range (t.lastRow + 1)).map Int.ofNat

/-- The failure of the cells of a blocked column. -/
def cycleFailure (c : Column) : Failure :=
  ⟨.circularReference, Text.quoted c.name ++ " is on or downstream of a reference cycle"⟩

/-- Fails all cells of a column for its cycle. -/
def failColumn (t : Table) (i : Nat) : Table :=
  match t.columns[i]? with
  | none => t
  | some c => t.setColumn i (t.rowIndices.foldl (fun c r => c.markFailed r (cycleFailure c)) c)

/-- Evaluates one cell; true if it failed. -/
def evaluateCell (t : Table) (i : Nat) (row : Int) : Except Fault (Table × Bool) :=
  match t.columns[i]? with
  | none => .ok (t, false)
  | some c =>
    match t.variablesAt row c with
    | .error f => .error f
    | .ok vars =>
      match c.evaluateRow row vars t.evaluator with
      | .error f => .error f
      | .ok (c, result) => .ok (t.setColumn i c, !result.isOk)

/-- The state of a recalculation: the table so far, the number of failed
cells, and the fault that stopped it, if one did. -/
structure Progress where
  table : Table
  failed : Nat
  fault? : Option Fault

/-- Evaluates one more cell, unless a fault stopped the recalculation. -/
def Progress.step (p : Progress) (cell : Nat × Int) : Progress :=
  match p.fault? with
  | some _ => p
  | none =>
    match p.table.evaluateCell cell.1 cell.2 with
    | .error f => { p with fault? := some f }
    | .ok (t, failed) => ⟨t, if failed then p.failed + 1 else p.failed, none⟩

/-- The cells of columns, column by column. -/
def cellsOf (t : Table) (positions : List Nat) : List (Nat × Int) :=
  positions.flatMap fun i => t.rowIndices.map fun r => (i, r)

/-! ## Recalculation -/

/-- A recalculated table, the warning if there was one, and the report or
the fault that stopped it. -/
structure Recalculated where
  table : Table
  warning? : Option String
  report : Except Fault Report

/-- Binds the data, evaluates every cell of the calculated columns, and
reports. -/
def recalculate (t : Table) : Recalculated :=
  let t := t.bindData
  let p := t.plan
  let start := p.blocked.foldl failColumn t
  let blockedCells := p.blocked.length * (t.lastRow + 1)
  let progress := (start.cellsOf p.order).foldl Progress.step ⟨start, blockedCells, none⟩
  match progress.fault? with
  | some f => ⟨progress.table, t.warning? p, .error f⟩
  | none =>
    let report : Report :=
      ⟨t.lastRow, ((p.blocked.length + p.order.length) * (t.lastRow + 1) : Nat),
        progress.failed, t.namesAt p.blocked, t.schedule.name⟩
    ⟨{ progress.table with report? := some report }, t.warning? p, .ok report⟩

end Worksheet.Table
