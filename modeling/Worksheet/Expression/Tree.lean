-- Expression trees. Every text has a tree: it is cut at its operators,
-- brackets, calls and signs until only numbers and constants are left. A
-- piece that is nothing of these becomes a leaf that holds its fault, so
-- faults come up in the order in which the tree is evaluated.
import Worksheet.Expression.PieceLength
import Worksheet.Text.Upper

namespace Worksheet

/-! ## Trees -/

inductive Constant where
  | pi
  | e
  | true
  | false
deriving DecidableEq

inductive Expression where
  | number (n : Number)
  | constant (c : Constant)
  | negative (operand : Expression)
  | positive (operand : Expression)
  | binary (op : Operator) (left right : Expression)
  | call (name : String) (args : List Expression)
  /-- A text that is no expression. -/
  | malformed (fault : Fault)

/-- The constant of a name, in any case. -/
def Constant.ofName? (name : String) : Option Constant :=
  let s := Text.upper name
  if s = "PI" then some .pi
  else if s = "E" then some .e
  else if s = "TRUE" then some .true
  else if s = "FALSE" then some .false
  else none

def Constant.value : Constant → Value
  | .pi => .double Double.pi
  | .e => .double Double.e
  | .true => .bool Bool.true
  | .false => .bool Bool.false

namespace Expression

/-! ## Leaves -/

/-- The number that a text writes. A run of digits is an integer, unless
it is too long and becomes the nearest double. -/
def numberOf? (e : List Char) : Option Number :=
  match Double.read? e with
  | none => none
  | some x =>
    if Text.isDigitRun e ∧ e.length ≤ Fault.digitLimit then
      some (.int (Text.digitRunValue e))
    else some (.double x)

/-- A number, a constant, or an unknown symbol. -/
def leaf (e : List Char) : Expression :=
  match numberOf? e with
  | some n => .number n
  | none =>
    match Constant.ofName? (String.ofList e) with
    | some c => .constant c
    | none => .malformed (.unknownSymbol (String.ofList e))

/-! ## The tree of a text -/

/-- The tree of an expression. Operators come first, then a group that
fills the text, a call, a sign, and at last the leaves. -/
def parse (text : List Char) : Expression :=
  let e := Text.trim text
  have he : e.length ≤ text.length := Text.length_trim_le text
  match e, he with
  | [], _ => .malformed .missingOperand
  | c :: rest, _he =>
    match hs : split? (c :: rest) with
    | some s =>
      have := length_of_split? hs
      .binary s.operator (parse s.left) (parse s.right)
    | none =>
      if c = '(' then
        match hg : group? (c :: rest) with
        | some inside =>
          have := length_of_group? hg
          parse inside
        | none => .malformed (.unbalanced (String.ofList (c :: rest)))
      else
        match hc : callOf? (c :: rest) with
        | some (name, args) =>
          have := length_of_callOf? hc
          .call (String.ofList name) ((arguments args).attach.map fun a =>
            have := length_of_mem_arguments a.1 a.2
            parse a.1)
        | none =>
          if c = '-' then .negative (parse rest)
          else if c = '+' then .positive (parse rest)
          else leaf (c :: rest)
termination_by text.length
decreasing_by all_goals simp only [List.length_cons] at *; omega

/-- The tree of a text, step by step. -/
theorem parse_eq (text : List Char) :
    parse text =
      match Text.trim text with
      | [] => .malformed .missingOperand
      | c :: rest =>
        match split? (c :: rest) with
        | some s => .binary s.operator (parse s.left) (parse s.right)
        | none =>
          if c = '(' then
            match group? (c :: rest) with
            | some inside => parse inside
            | none => .malformed (.unbalanced (String.ofList (c :: rest)))
          else
            match callOf? (c :: rest) with
            | some (name, args) => .call (String.ofList name) ((arguments args).map parse)
            | none =>
              if c = '-' then .negative (parse rest)
              else if c = '+' then .positive (parse rest)
              else leaf (c :: rest) := by
  rw [parse]
  generalize Text.length_trim_le text = he
  revert he
  generalize Text.trim text = e
  intro he
  cases e with
  | nil => rfl
  | cons c rest =>
    dsimp only
    split
    · rename_i s hs
      rw [hs]
    · rename_i hs
      rw [hs]
      dsimp only
      split
      · split <;> rename_i hg <;> rw [hg]
      · split
        · rename_i name args hc
          rw [hc]
          simp
        · rename_i hc
          rw [hc]

end Expression

end Worksheet
