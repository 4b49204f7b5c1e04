-- Doubles as text. Reading takes the usual decimal forms, an exponent,
-- groups joined by underscores, and digits of any script. Writing gives
-- the shortest digits that read back, with a power of ten where the
-- point would stand far away.
import Worksheet.Double.Decimal
import Worksheet.Text.Blank
import Worksheet.Text.Digit

namespace Worksheet.Double

/-! ## Reading -/

/-- A leading sign, true for minus, and what follows it. -/
def takeSign : List Char → Bool × List Char
  | '-' :: cs => (true, cs)
  | '+' :: cs => (false, cs)
  | cs => (false, cs)

/-- Takes out the underscores, each of which must stand between two
digits. -/
def joinGroups? (prev : Char) : List Char → Option (List Char)
  | [] => some []
  | '_' :: c :: cs =>
    if prev.isDigit && c.isDigit then (joinGroups? c cs).map (c :: ·) else none
  | c :: cs => if c = '_' then none else (joinGroups? c cs).map (c :: ·)

/-- An exponent mark with its digits, or nothing. -/
def readExponent? : List Char → Option Int
  | [] => some 0
  | c :: cs =>
    let (negative, ds) := takeSign cs
    if (c = 'e' ∨ c = 'E') ∧ ds ≠ [] ∧ ds.all Char.isDigit then
      let n : Int := Nat.ofDigitChars 10 ds 0
      some (if negative then -n else n)
    else none

/-- A decimal without a sign: digits with an optional point, at least one
digit, and an optional exponent. -/
def readDecimal? (cs : List Char) : Option Decimal :=
  let whole := cs.takeWhile Char.isDigit
  let rest := cs.dropWhile Char.isDigit
  let (fraction, tail) : List Char × List Char :=
    match rest with
    | '.' :: r => (r.takeWhile Char.isDigit, r.dropWhile Char.isDigit)
    | r => ([], r)
  if whole.isEmpty && fraction.isEmpty then none
  else (readExponent? tail).map fun e =>
    ⟨Nat.ofDigitChars 10 (whole ++ fraction) 0, e - (fraction.length : Int)⟩

/-- A number without a sign, in ASCII: a decimal, or the words for an
infinity and for what is not a number, in any case. -/
def readUnsigned? (negative : Bool) (cs : List Char) : Option Double :=
  let word := cs.map Char.toLower
  if word = ['i', 'n', 'f'] ∨ word = ['i', 'n', 'f', 'i', 'n', 'i', 't', 'y'] then
    some (.infinity negative)
  else if word = ['n', 'a', 'n'] then some .nan
  else (readDecimal? cs).map (Decimal.toDouble negative)

/-- The double that a text writes, blanks around it apart. -/
def read? (cs : List Char) : Option Double :=
  match joinGroups? ' ' ((Text.trim cs).map Text.asciiDigit) with
  | none => none
  | some cs =>
    let (negative, body) := takeSign cs
    readUnsigned? negative body

/-! ## Writing -/

/-- What two ways of writing doubles may differ in: the least number of
digits in an exponent, and the words for what is not finite. -/
structure Style where
  exponentDigits : Nat
  notANumber : String
  infinite : String

/-- The style of literals and messages: two exponent digits. -/
def literalStyle : Style := ⟨2, "nan", "inf"⟩

/-- The style of cells: exponents without padding. -/
def cellStyle : Style := ⟨1, "NaN", "Infinity"⟩

/-- An integer exponent with its sign. -/
def exponentText (width : Nat) (e : Int) : List Char :=
  let ds := Nat.toDigits 10 e.natAbs
  (if e < 0 then '-' else '+') :: (List.replicate (width - ds.length) '0' ++ ds)

/-- Lays out the digits `d₁d₂…` of the number `0.d₁d₂… · 10 ^ place`. A
point that would stand more than sixteen digits to the right, or behind
more than three zeros, gives way to an exponent. -/
def layOut (exponentDigits : Nat) (ds : List Char) (place : Int) : List Char :=
  if place ≤ -4 ∨ 16 < place then
    ds.take 1 ++ (if ds.length ≤ 1 then [] else '.' :: ds.drop 1)
      ++ 'e' :: exponentText exponentDigits (place - 1)
  else if place ≤ 0 then
    '0' :: '.' :: (List.replicate (-place).toNat '0' ++ ds)
  else if (ds.length : Int) ≤ place then
    ds ++ List.replicate (place.toNat - ds.length) '0' ++ ['.', '0']
  else ds.take place.toNat ++ '.' :: ds.drop place.toNat

/-- The digits without the zeros at their end. -/
def dropTrailingZeros (ds : List Char) : List Char :=
  (ds.reverse.dropWhile (· == '0')).reverse

/-- A decimal as text; zero is written with one digit. -/
def decimalText (exponentDigits : Nat) (d : Decimal) : List Char :=
  if d.digits = 0 then ['0', '.', '0']
  else
    let ds := Nat.toDigits 10 d.digits
    layOut exponentDigits (dropTrailingZeros ds) ((ds.length : Int) + d.exponent)

/-- A double as text. -/
def write (style : Style) : Double → String
  | .nan => style.notANumber
  | .infinity s => if s then "-" ++ style.infinite else style.infinite
  | .finite s m e h =>
    let body := decimalText style.exponentDigits (shortest (.finite s m e h))
    String.ofList (if s then '-' :: body else body)

/-- A double as a literal that reads back. -/
def literal (x : Double) : String := x.write literalStyle

end Worksheet.Double
