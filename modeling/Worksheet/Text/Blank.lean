-- Blanks and trimming. A blank is any character that separates words:
-- the Unicode white space and the four information separators. Trimming
-- takes the blanks off both ends and nothing else.

namespace Worksheet.Text

/-! ## Blanks -/

/-- The blanks: tab to carriage return, the information separators, the
ASCII space, next line, the no-break space, and the spaces and
separators of general punctuation. -/
def isBlank (c : Char) : Bool :=
  let n := c.toNat
  (9 ≤ n && n ≤ 13) || (28 ≤ n && n ≤ 32) || n == 0x85 || n == 0xA0 || n == 0x1680
    || (0x2000 ≤ n && n ≤ 0x200A) || n == 0x2028 || n == 0x2029 || n == 0x202F
    || n == 0x205F || n == 0x3000

/-! ## Trimming -/

/-- The text without its leading blanks. -/
def trimStart (cs : List Char) : List Char := cs.dropWhile isBlank

/-- The text without its trailing blanks. -/
def trimEnd (cs : List Char) : List Char := (cs.reverse.dropWhile isBlank).reverse

/-- The text without the blanks at its two ends. -/
def trim (cs : List Char) : List Char := trimEnd (trimStart cs)

/-- Trimming never makes a text longer. -/
theorem length_trim_le (cs : List Char) : (trim cs).length ≤ cs.length := by
  have h1 := ((trimStart cs).reverse.dropWhile_sublist isBlank).length_le
  have h2 := (cs.dropWhile_sublist isBlank).length_le
  simp only [trim, trimEnd, List.length_reverse] at *
  exact Nat.le_trans h1 h2

/-- A text of blanks only, or of nothing. -/
def isEmptyOrBlank (cs : List Char) : Bool := cs.all isBlank

end Worksheet.Text
