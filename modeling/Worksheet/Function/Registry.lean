-- The registry of functions. Names are kept in upper case, so a function
-- answers to its name in any case. A later registration of a name takes
-- the place of an earlier one.
import Worksheet.OrderedMap
import Worksheet.Value
import Worksheet.Text.Upper

namespace Worksheet

/-! ## The registry -/

/-- A function of evaluated arguments. -/
abbrev Function : Type := List Value → Except Fault Value

structure Registry where
  functions : OrderedMap String Function

namespace Registry

/-- The registry without functions. -/
def empty : Registry := ⟨OrderedMap.empty⟩

/-- The registry with a function under a name. -/
def register (r : Registry) (name : String) (f : Function) : Registry :=
  ⟨r.functions.insert (Text.upper name) f⟩

def get? (r : Registry) (name : String) : Option Function :=
  r.functions.get? (Text.upper name)

def has (r : Registry) (name : String) : Bool := (r.get? name).isSome

/-- The names in upper case, oldest first. -/
def names (r : Registry) : List String := r.functions.keys

end Registry

end Worksheet
