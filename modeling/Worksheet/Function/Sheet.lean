-- Sheet functions. A calculator may ask a library for the functions that
-- every spreadsheet has. The library stands outside: it is given a formula
-- whose arguments are literals, and answers with a value if it can. Only a
-- truth value or a number counts as an answer.
import Worksheet.ArrayValue

namespace Worksheet

/-! ## The library -/

/-- What a library of sheet functions answers to a formula. There is no
answer if it cannot read the formula or fails to calculate it. -/
abbrev SheetLibrary : Type := String → Option ArrayValue

/-- The literal that hands a value to a sheet function. -/
def Value.sheetLiteral : Value → Except Fault String
  | .bool b => .ok (if b then "TRUE" else "FALSE")
  | .int n => intText n
  | v =>
    match v.shown with
    | .error f => .error f
    | .ok shown =>
      match v with
      | .double x => if x.isFinite then .ok x.literal else .error (.notALiteral shown)
      | _ => .error (.notALiteral shown)

namespace Sheet

/-- The formula of a call. -/
def formula (name : String) (literals : List String) : String :=
  "=" ++ name ++ "(" ++ String.intercalate "," literals ++ ")"

/-- The truth value or number that the library answers; no value if there is
none. -/
def answer (library : SheetLibrary) (formula : String) : Value :=
  match library formula with
  | some v => v.normal
  | none => .empty

/-- Calls a sheet function on evaluated arguments, each of which must have a
literal. Without an answer the function is unsupported. -/
def call (library : SheetLibrary) (name : String) (args : List Value) : Except Fault Value :=
  match args.mapM Value.sheetLiteral with
  | .error f => .error f
  | .ok literals =>
    match answer library (formula name literals) with
    | .empty => .error (.unsupportedFunction name)
    | v => .ok v

end Sheet

end Worksheet
