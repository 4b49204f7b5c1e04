-- Aggregations. A column may be summed up in one line below its rows: its
-- largest, smallest or average value, or its sum. The rows are read as
-- doubles, and a package of array functions sums them or finds the extreme.
import Worksheet.Outcome

namespace Worksheet

/-! ## Operations -/

inductive Aggregation where
  | none
  | max
  | average
  | min
  | sum
deriving DecidableEq

namespace Aggregation

def name : Aggregation → String
  | .none => "None"
  | .max => "Max"
  | .average => "Average"
  | .min => "Min"
  | .sum => "Sum"

def all : List Aggregation := [.none, .max, .average, .min, .sum]

/-- The operation of a name in any case, blanks around it apart. -/
def ofName? (s : String) : Option Aggregation :=
  let word := (Text.trim s.toList).map Char.toLower
  all.find? fun a => a.name.toList.map Char.toLower = word

/-- The operation that a value selects; nothing and the empty text select
none. -/
def ofValue (v : Value) : Except Fault Aggregation :=
  let unknown : Except Fault Aggregation :=
    match v.shown with
    | .ok shown => .error (.unknownAggregation shown)
    | .error f => .error f
  match v with
  | .empty => .ok .none
  | .text s =>
    if s = "" then .ok .none
    else
      match ofName? s with
      | some a => .ok a
      | Option.none => unknown
  | _ => unknown

end Aggregation

/-! ## Reductions -/

/-- What a package of array functions makes of the doubles of a column. The
package stands outside; an extreme is only asked for where there is a
double. -/
class Reductions where
  sum : List Double → Double
  max : List Double → Double
  min : List Double → Double

/-! ## Summaries -/

/-- A summary of a column: the operation and the text of its result. -/
structure Summary where
  operation : Aggregation
  value : String
  failure? : Option FailureKind
deriving DecidableEq

namespace Summary

def isOk (s : Summary) : Bool := s.failure?.isNone

/-- The line below the rows; without an operation it is empty. -/
def text (s : Summary) : String :=
  if s.operation = .none then "" else s.operation.name ++ ": " ++ s.value

end Summary

/-- The double that a row counts as, if it is a number. A text counts if it
writes one. -/
def Value.rowDouble? : Value → Option Double
  | .bool b => some (if b then Double.one else .zero false)
  | .int n => Double.ofInt? n
  | .double x => some x
  | .text s => Double.read? s.toList
  | _ => none

namespace Aggregation

/-- The result of an operation on doubles. Of no rows only the sum is a
number. -/
def reduce [Reductions] (a : Aggregation) (xs : List Double) : Double :=
  match a with
  | .sum => Reductions.sum xs
  | .average => if xs.isEmpty then .nan else (Reductions.sum xs).div (Double.ofInt xs.length)
  | .max => if xs.isEmpty then .nan else Reductions.max xs
  | .min => if xs.isEmpty then .nan else Reductions.min xs
  | .none => .nan

/-- Sums up the values of rows. One value that is no number fails the
summary. -/
def summarise [Reductions] (a : Aggregation) (rows : List Value) : Summary :=
  if a = .none then ⟨.none, "", Option.none⟩
  else
    match rows.mapM Value.rowDouble? with
    | some xs => ⟨a, (a.reduce xs).cellText, Option.none⟩
    | Option.none => ⟨a, failedText, some .aggregationFailed⟩

end Aggregation

end Worksheet
