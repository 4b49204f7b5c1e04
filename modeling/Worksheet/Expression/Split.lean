-- Cutting expressions. An expression is cut at its loosest operator that
-- stands outside all brackets. Comparisons, sums and products are cut at
-- their last such operator, powers at their first. A call is a name with a
-- bracketed text up to the end, and that text is cut at its outer commas.
import Worksheet.Expression.Operator

namespace Worksheet.Expression

open Text (trim)

/-! ## Operators in a text -/

/-- A text cut in two at an operator. -/
structure Split where
  left : List Char
  operator : Operator
  right : List Char
deriving DecidableEq

/-- The characters after which an operator has no left operand: a bracket
that opens, a comma, and the characters of operators. -/
def leadsOperand (c : Char) : Bool :=
  c == '(' || c == ',' || c == '+' || c == '-' || c == '*' || c == '/' || c == '%' || c == '^'
    || c == '>' || c == '<' || c == '=' || c == '!'

/-- An operator with this text before it, read backwards, has no left
operand, so it is a sign. Only ASCII spaces are looked past. -/
def isSignPosition (before : List Char) : Bool :=
  match before.dropWhile (· == ' ') with
  | [] => true
  | c :: _ => leadsOperand c

/-- The text before a sign, read backwards, is a number up to its exponent
mark. -/
def endsAtExponent : List Char → Bool
  | e :: d :: _ => (e == 'e' || e == 'E') && (Text.looksLikeDigit d || d == '.')
  | _ => false

/-- The comparison that two characters spell. -/
def doubleComparison? (a b : Char) : Option Comparison :=
  if a = '>' ∧ b = '=' then some .atLeast
  else if a = '<' ∧ b = '=' then some .atMost
  else if a = '<' ∧ b = '>' then some .unequal
  else if a = '=' ∧ b = '=' then some .doubleEqual
  else if a = '!' ∧ b = '=' then some .notEqual
  else none

/-- The comparison that one character spells between its neighbours. -/
def singleComparison? (before : List Char) (c : Char) (after : List Char) :
    Option Comparison :=
  if c = '>' ∨ c = '<' then
    match after with
    | '=' :: _ => none
    | '>' :: _ => none
    | _ => some (if c = '>' then .greater else .less)
  else if c = '=' then
    match before with
    | '>' :: _ => none
    | '<' :: _ => none
    | '!' :: _ => none
    | '=' :: _ => none
    | _ => some .equal
  else none

/-- The operator of a class that ends at a character, and the text before
the operator, read backwards. -/
def operatorAt? (cls : Precedence) (before : List Char) (c : Char) (after : List Char) :
    Option (Operator × List Char) :=
  match cls with
  | .comparison =>
    let single := (singleComparison? before c after).map fun op => (.comparison op, before)
    match before with
    | p :: rest =>
      match doubleComparison? p c with
      | some op => some (.comparison op, rest)
      | none => single
    | [] => single
  | .additive =>
    if endsAtExponent before then none
    else if c = '+' then some (.arithmetic .plus, before)
    else if c = '-' then some (.arithmetic .minus, before)
    else none
  | .multiplicative =>
    if c = '*' then some (.arithmetic .times, before)
    else if c = '/' then some (.arithmetic .divide, before)
    else if c = '%' then some (.arithmetic .modulo, before)
    else none
  | .power => if c = '^' then some (.arithmetic .power, before) else none

/-- The binary operator of a class that ends at a character. -/
def binaryAt? (cls : Precedence) (before : List Char) (c : Char) (after : List Char) :
    Option (Operator × List Char) :=
  (operatorAt? cls before c after).filter fun p => !isSignPosition p.2

/-- The two operands, if neither is blank. -/
def splitAt? (before : List Char) (op : Operator) (after : List Char) : Option Split :=
  let left := trim before.reverse
  let right := trim after
  if left.isEmpty || right.isEmpty then none else some ⟨left, op, right⟩

/-! ## The two scans -/

/-- The last cut at an operator of a class, outside brackets. The text
before the current place is read backwards, and its first character is
never looked at. -/
def lastSplit? (cls : Precedence) : List Char → List Char → Int → Option Split
  | [], _, _ => none
  | [_], _, _ => none
  | c :: p :: before, after, depth =>
    if c = ')' then lastSplit? cls (p :: before) (c :: after) (depth + 1)
    else if c = '(' then lastSplit? cls (p :: before) (c :: after) (depth - 1)
    else if depth ≠ 0 then lastSplit? cls (p :: before) (c :: after) depth
    else
      match (binaryAt? cls (p :: before) c after).bind fun b => splitAt? b.2 b.1 after with
      | some s => some s
      | none => lastSplit? cls (p :: before) (c :: after) depth

/-- The text begins with a sign. -/
def beginsWithSign : List Char → Bool
  | '+' :: _ => true
  | '-' :: _ => true
  | _ => false

/-- The first cut at a power, outside brackets. If the base has a sign the
text is not cut: the sign belongs to the whole power. -/
def firstPower? : List Char → List Char → Int → Option Split
  | _, [], _ => none
  | before, c :: after, depth =>
    if c = '(' then firstPower? (c :: before) after (depth + 1)
    else if c = ')' then firstPower? (c :: before) after (depth - 1)
    else if depth ≠ 0 then firstPower? (c :: before) after depth
    else
      match binaryAt? .power before c after with
      | none => firstPower? (c :: before) after depth
      | some (op, _) =>
        if beginsWithSign (trim before.reverse) then none
        else
          match splitAt? before op after with
          | some s => some s
          | none => firstPower? (c :: before) after depth

/-- The cut of an expression at its loosest operator. -/
def split? (e : List Char) : Option Split :=
  match lastSplit? .comparison e.reverse [] 0 with
  | some s => some s
  | none =>
    match lastSplit? .additive e.reverse [] 0 with
    | some s => some s
    | none =>
      match lastSplit? .multiplicative e.reverse [] 0 with
      | some s => some s
      | none => firstPower? [] e 0

/-! ## Calls -/

/-- What stands before the bracket that closes a group, and what follows
it. The number counts the groups that are open inside. -/
def takeGroup? : Nat → List Char → Option (List Char × List Char)
  | _, [] => none
  | depth, c :: cs =>
    if c = '(' then (takeGroup? (depth + 1) cs).map fun p => (c :: p.1, p.2)
    else if c = ')' then
      match depth with
      | 0 => some ([], cs)
      | inner + 1 => (takeGroup? inner cs).map fun p => (c :: p.1, p.2)
    else (takeGroup? depth cs).map fun p => (c :: p.1, p.2)

/-- A letter of a name: a Latin letter or the underscore. Four letters
count as Latin because their other case does. -/
def isNameStart (c : Char) : Bool :=
  c.isAlpha || c == '_' || c == '\u017f' || c == '\u0131' || c == '\u0130' || c == '\u212a'

def isNamePart (c : Char) : Bool := isNameStart c || c.isDigit

/-- The text between the brackets if a text is one group. -/
def group? : List Char → Option (List Char)
  | '(' :: cs =>
    match takeGroup? 0 cs with
    | some (inside, []) => some inside
    | _ => none
  | _ => none

/-- A call that fills a trimmed text: its name and the text between the
brackets. -/
def callOf? (e : List Char) : Option (List Char × List Char) :=
  match e with
  | [] => none
  | c :: _ =>
    if isNameStart c then
      (group? (Text.trimStart (e.dropWhile isNamePart))).map fun args =>
        (e.takeWhile isNamePart, args)
    else none

/-- The call that a text is, blanks around it apart. -/
def call? (e : List Char) : Option (List Char × List Char) := callOf? (trim e)

/-- Puts a character in front of the first text. -/
def consFirst (c : Char) : List (List Char) → List (List Char)
  | [] => [[c]]
  | a :: rest => (c :: a) :: rest

/-- The pieces between the commas outside brackets. -/
def cutArguments : Int → List Char → List (List Char)
  | _, [] => [[]]
  | depth, c :: cs =>
    if c = '(' then consFirst c (cutArguments (depth + 1) cs)
    else if c = ')' then consFirst c (cutArguments (depth - 1) cs)
    else if c = ',' ∧ depth = 0 then [] :: cutArguments depth cs
    else consFirst c (cutArguments depth cs)

/-- The argument texts of a call; a blank text holds none. -/
def arguments (args : List Char) : List (List Char) :=
  if Text.isEmptyOrBlank args then [] else cutArguments 0 args

end Worksheet.Expression
