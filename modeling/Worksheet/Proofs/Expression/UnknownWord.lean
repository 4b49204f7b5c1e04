-- Words that no expression has. A word of letters that stands in no number,
-- no constant and no name of a function stands in no rendering at all: what
-- a rendering puts between these are blanks, brackets, commas and operators,
-- and the word cannot reach across one of them.
import Worksheet.Outcome
import Worksheet.Proofs.Expression.Soundness
import Mathlib.Data.List.Infix

namespace Worksheet

/-! ## A word across a gap -/

section Infix

variable {α : Type} {w u v gap : List α}

end Infix

namespace Expression

/-! ## What separates words -/

/-- The character ends a word: a blank, a sign, or a separator. -/
def EndsWord (c : Char) : Prop := Text.isBlank c = true ∨ c ∈ '+' :: '-' :: separators

/-- A word that the grammar knows nothing of. -/
structure UnknownWord (g : Grammar) (w : List Char) : Prop where
  ne_nil : w ≠ []
  whole : ∀ c, EndsWord c → c ∉ w
  leaf : ∀ cs e, g.leaf cs e → ¬ w <:+: cs
  name : ∀ cs, g.name cs → ¬ w <:+: cs

variable {g : Grammar} {w : List Char}

/-- Spaces with brackets or symbols beside them make a gap. -/
theorem UnknownWord.gap (h : UnknownWord g w) {gap : List Char} (hgap : ∀ c ∈ gap, EndsWord c) :
    ∀ c ∈ gap, c ∉ w := fun c hc => h.whole c (hgap c hc)

end Expression

end Worksheet
