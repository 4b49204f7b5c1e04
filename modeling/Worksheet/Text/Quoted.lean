-- Quoted texts. A message that names a piece of text quotes it, so that
-- its ends and its invisible characters can be seen.
import Worksheet.Text.Printable

namespace Worksheet.Text

/-! ## Escapes -/

/-- The lower-case hexadecimal digits of a number, at least `width` of
them. -/
def hexDigits (width n : Nat) : List Char :=
  let ds := Nat.toDigits 16 n
  List.replicate (width - ds.length) '0' ++ ds

/-- One character inside quotes. The backslash and the enclosing quote
take a backslash; line feed, carriage return and tab have their letters;
what is not printable is written by its number in the shortest of three
widths. -/
def escapeChar (quote c : Char) : List Char :=
  if c = '\\' ∨ c = quote then ['\\', c]
  else if c = '\n' then ['\\', 'n']
  else if c = '\r' then ['\\', 'r']
  else if c = '\t' then ['\\', 't']
  else if isPrintable c then [c]
  else if c.toNat < 0x100 then '\\' :: 'x' :: hexDigits 2 c.toNat
  else if c.toNat < 0x10000 then '\\' :: 'u' :: hexDigits 4 c.toNat
  else '\\' :: 'U' :: hexDigits 8 c.toNat

/-! ## Quotes -/

/-- Single quotes, unless the text holds one and no double quote. -/
def enclosingQuote (cs : List Char) : Char :=
  if cs.contains '\'' && !cs.contains '"' then '"' else '\''

/-- The text in quotes. -/
def quoted (s : String) : String :=
  let q := enclosingQuote s.toList
  String.ofList (q :: s.toList.flatMap (escapeChar q) ++ [q])

/-- The items between brackets, a comma and a space after each but the
last. -/
def bracketed (items : List String) : String := "[" ++ String.intercalate ", " items ++ "]"

end Worksheet.Text
