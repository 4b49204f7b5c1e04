-- Arrays from outside. A value that another program hands in may be a
-- whole array. An array of one item counts as that item; any other array
-- can be shown but is no number.
import Worksheet.Display

namespace Worksheet

/-! ## Plain numbers -/

/-- A whole number as an integer, any other number as it is. -/
def Number.normal : Number → Number
  | .int n => .int n
  | .double x => if x.isIntegral then .int x.value.num else .double x

/-- A truth value or a plain number; no other value counts. -/
def Value.normal : Value → Value
  | .bool b => .bool b
  | .int n => .ofNumber (Number.normal (.int n))
  | .double x => .ofNumber (Number.normal (.double x))
  | _ => .empty

/-! ## Arrays -/

/-- A single value, or the items of an array. -/
inductive ArrayValue where
  | single (v : Value)
  | array (items : List Value)

namespace ArrayValue

/-- The items as a message shows them, with single spaces between. -/
def itemTexts (items : List Value) : Except Fault String :=
  (items.mapM Value.shown).map fun texts => "[" ++ String.intercalate " " texts ++ "]"

/-- What a cell shows. -/
def display : ArrayValue → Except Fault String
  | .single v => v.display
  | .array [v] => v.display
  | .array items => itemTexts items

/-- The truth value or plain number, if it is one. -/
def normal : ArrayValue → Value
  | .single v => v.normal
  | .array [v] => v.normal
  | .array _ => .empty

end ArrayValue

end Worksheet
