-- Columns. A column has a name, a type, an expression and an aggregation,
-- and holds the values of its rows. A row whose evaluation failed keeps the
-- failure beside the word that it shows.
import Worksheet.Aggregation
import Worksheet.OrderedMap
import Worksheet.Reference

namespace Worksheet

/-! ## Types of columns -/

inductive ColumnType where
  | time
  | data
  | calculated
  | unset
deriving DecidableEq

namespace ColumnType

def name : ColumnType → String
  | .time => "time"
  | .data => "data"
  | .calculated => "calculated"
  | .unset => ""

def all : List ColumnType := [.time, .data, .calculated, .unset]

/-- The type of a name; the empty name is the unset type. -/
def ofName (s : String) : Except Fault ColumnType :=
  match all.find? fun t => t.name = s with
  | some t => .ok t
  | none => .error (.unknownColumnType s)

end ColumnType

/-! ## The column -/

structure Column where
  name : String
  type : ColumnType
  id : String
  expression : String
  aggregation : Aggregation
  /-- The value of each row that is set, in the order of setting. -/
  rows : OrderedMap Int Value
  /-- The failure of each row that failed. -/
  failures : OrderedMap Int Failure

namespace Column

/-- The identifier of a name: its spaces become underscores. -/
def defaultId (name : String) : String :=
  String.ofList (name.toList.map fun c => if c = ' ' then '_' else c)

/-- A column without rows. -/
def ofParts (name : String) (type : ColumnType) (id expression : String)
    (aggregation : Aggregation) : Column :=
  ⟨name, type, id, expression, aggregation, OrderedMap.empty, OrderedMap.empty⟩

/-- A column from the names of its type and its aggregation. -/
def create (name type : String) (id? : Option String) (expression : String)
    (aggregation : Value) : Except Fault Column :=
  match ColumnType.ofName type with
  | .error f => .error f
  | .ok t =>
    match Aggregation.ofValue aggregation with
    | .error f => .error f
    | .ok a => .ok (ofParts name t (id?.getD (defaultId name)) expression a)

/-- A calculated column, named after its result. -/
def calculated (name expression : String) (aggregation : Value) : Except Fault Column :=
  (Aggregation.ofValue aggregation).map fun a =>
    ofParts name .calculated (defaultId name) expression a

def isCalculated (c : Column) : Bool := decide (c.type = .calculated)

/-- The names of the columns that the expression reads. -/
def reads (c : Column) : List String := references c.expression

/-! ## New columns from old -/

/-- The same column without rows. -/
def withoutRows (c : Column) : Column :=
  ofParts c.name c.type c.id c.expression c.aggregation

def withExpression (c : Column) (expression : String) : Column :=
  { c.withoutRows with expression := expression }

def withAggregation (c : Column) (aggregation : Value) : Except Fault Column :=
  (Aggregation.ofValue aggregation).map fun a => { c.withoutRows with aggregation := a }

/-- The column after a revision. What is not given stays; the identifier is
derived from the name again. -/
def revise (c : Column) (name? expression? : Option String) (aggregation? : Option Value) :
    Except Fault Column :=
  let aggregation : Except Fault Aggregation :=
    match aggregation? with
    | none => .ok c.aggregation
    | some v => Aggregation.ofValue v
  let name := name?.getD c.name
  aggregation.map fun a =>
    ofParts name c.type (defaultId name) (expression?.getD c.expression) a

/-- The column in one line. -/
def describe (c : Column) : String :=
  "<Column " ++ Text.quoted c.name
    ++ " type=" ++ (if c.type = .unset then "unset" else c.type.name)
    ++ " aggregation=" ++ c.aggregation.name
    ++ " rows=" ++ intDigits c.rows.size ++ ">"

end Column

end Worksheet
