-- Tables. A table binds raw data to columns by position: the first column
-- shows the first column of the data, and so on. A name stands for the last
-- column that has it.
import Worksheet.Column.Rows
import Worksheet.Table.Report

namespace Worksheet

/-! ## The table -/

/-- Raw data: the rows of each column position. -/
abbrev RawData : Type := OrderedMap Nat (OrderedMap Nat Value)

structure Table where
  data : RawData
  columns : List Column
  /-- The last row of the data that is bound to columns. -/
  lastRow : Nat
  /-- Some column has a summary to show. -/
  hasSummaries : Bool
  schedule : Schedule
  evaluator : Evaluator
  /-- The report of the last recalculation. -/
  report? : Option Report

namespace Table

/-! ## New tables -/

/-- The rows of a column with all keys read as indices. The key of the
column is read before those of its rows. -/
def readColumn (column : Value × List (Value × Value)) :
    Except Fault (Nat × OrderedMap Nat Value) :=
  match column.1.index with
  | .error f => .error f
  | .ok i =>
    match Value.indexedRows column.2 with
    | .error f => .error f
    | .ok rows => .ok (i, OrderedMap.ofList rows)

/-- Raw data with its keys read as indices. -/
def readData (data : List (Value × List (Value × Value))) : Except Fault RawData :=
  (data.mapM readColumn).map OrderedMap.ofList

/-- A table over raw data, without columns. -/
def ofData (data : RawData) (schedule : Schedule) (ev : Evaluator) : Table :=
  ⟨data, [], 0, false, schedule, ev, none⟩

/-- Appends columns, without the rows they may hold. -/
def append (t : Table) (columns : List Column) : Table :=
  { t with columns := t.columns ++ columns.map Column.withoutRows }

/-- A table from data as it is written, and the name of its schedule. -/
def create (data : List (Value × List (Value × Value))) (columns : List Column)
    (schedule : String) (ev : Evaluator) : Except Fault Table :=
  match readData data with
  | .error f => .error f
  | .ok raw =>
    match Schedule.ofName schedule with
    | .error f => .error f
    | .ok s => .ok ((ofData raw s ev).append columns)

/-- The columns of a table to start with: one for time and two for data. -/
def startColumns : List Column := [
  Column.ofParts "Time" .time "time_col" "" .none,
  Column.ofParts "Cell Density" .data "var_col_1" "" .none,
  Column.ofParts "Volume" .data "var_col_2" "" .none]

/-! ## Names and positions -/

/-- The positions of names: each name once, at its last column. -/
def namePositions (t : Table) : OrderedMap String Nat :=
  OrderedMap.ofList (t.columns.zipIdx.map fun p => (p.1.name, p.2))

/-- The position that a name stands for, if a column has it. -/
def position? (t : Table) (name : String) : Option Nat := t.namePositions.get? name

/-- The position of a name that must be there. -/
def position (t : Table) (name : String) : Except Fault Nat :=
  match t.position? name with
  | some i => .ok i
  | none => .error (.unknownColumn name)

/-- The place in the list that a position means; a negative one counts
from the end. -/
def place (t : Table) (position : Int) : Except Fault Nat :=
  let n : Int := t.columns.length
  let i := if position < 0 then position + n else position
  if 0 ≤ i ∧ i < n then .ok i.toNat else .error .outOfRange

/-- The column at a position. -/
def column (t : Table) (position : Int) : Except Fault Column :=
  match t.place position with
  | .error f => .error f
  | .ok i =>
    match t.columns[i]? with
    | some c => .ok c
    | none => .error .outOfRange

/-- Puts a column, rows and all, in a place. -/
def setColumn (t : Table) (i : Nat) (c : Column) : Table :=
  { t with columns := t.columns.set i c }

/-- Puts a column, without its rows, in the place of the column of a
name. -/
def replace (t : Table) (old : String) (column : Column) : Except Fault Table :=
  (t.position old).map fun i => t.setColumn i column.withoutRows

/-! ## Reading -/

/-- What a cell of the grid shows: a text, or below the last row the
summary of the column. -/
inductive Cell where
  | text (s : String)
  | summary (s : Summary)
deriving DecidableEq

def cell [Reductions] (t : Table) (row column : Int) : Except Fault Cell :=
  match t.column column with
  | .error f => .error f
  | .ok c =>
    if (t.lastRow : Int) < row then .ok (.summary c.summary)
    else (c.textAt row).map Cell.text

def outcome (t : Table) (row column : Int) : Except Fault Outcome :=
  match t.column column with
  | .error f => .error f
  | .ok c => c.outcomeAt row

def summary [Reductions] (t : Table) (column : Int) : Except Fault Summary :=
  (t.column column).map Column.summary

/-- The number of rows to show, with the line of summaries if there is
one. -/
def height (t : Table) : Nat := if t.hasSummaries then t.lastRow + 2 else t.lastRow + 1

/-- The table in one line. -/
def describe (t : Table) : Except Fault String :=
  (intText t.lastRow).map fun digits =>
    "<Table columns=" ++ Text.bracketed (t.columns.map fun c => Text.quoted c.name)
      ++ " max_row=" ++ digits ++ ">"

end Table

end Worksheet
