-- Reports. A recalculation tells how many cells it calculated, how many of
-- them failed, and which columns it could not evaluate for a cycle.
import Worksheet.Value

namespace Worksheet

/-! ## Schedules -/

/-- In which order the calculated columns of a table are evaluated. -/
inductive Schedule where
  /-- A column after those it reads; columns on a cycle fail. -/
  | dependency
  /-- The columns as they stand, cycles or not. -/
  | declaration
deriving DecidableEq

namespace Schedule

def name : Schedule → String
  | .dependency => "dependency"
  | .declaration => "declaration"

/-- The schedule of a name. -/
def ofName (s : String) : Except Fault Schedule :=
  if s = "dependency" then .ok .dependency
  else if s = "declaration" then .ok .declaration
  else .error (.unknownOrdering s)

end Schedule

/-! ## Reports -/

/-- What one recalculation did. -/
structure Report where
  lastRow : Int
  cells : Int := 0
  failedCells : Int := 0
  blockedColumns : List String := []
  schedule : String := Schedule.dependency.name
deriving DecidableEq

namespace Report

/-- The share of cells that failed; of no cells none failed. -/
def failureRatio (r : Report) : Except Fault Double :=
  if r.cells = 0 then .ok (.zero false)
  else (Number.int r.failedCells).quotient (.int r.cells)

end Report

end Worksheet
