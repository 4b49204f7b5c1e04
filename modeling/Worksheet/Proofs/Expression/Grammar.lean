-- The grammar of expressions. A text renders a tree at a level: the loosest
-- level is that of comparisons, the tightest that of primaries. Operators of
-- one level associate to the left, except the power, whose left operand is a
-- primary and whose right operand may have signs.
import Worksheet.Expression.Tree
import Worksheet.Proofs.Expression.Brackets
import Worksheet.Proofs.Text.Trim

namespace Worksheet

/-! ## Levels -/

/-- The levels of a text, from the loosest to the tightest. -/
inductive Level where
  | comparison
  | additive
  | multiplicative
  | signed
  | power
  | primary
deriving DecidableEq

namespace Level

def rank : Level → Nat
  | .comparison => 0
  | .additive => 1
  | .multiplicative => 2
  | .signed => 3
  | .power => 4
  | .primary => 5

/-- The first level is as tight as the second, or tighter. -/
def AsTight (a b : Level) : Prop := b.rank ≤ a.rank

instance (a b : Level) : Decidable (AsTight a b) := inferInstanceAs (Decidable (b.rank ≤ a.rank))

end Level

namespace Precedence

/-- The level of a text with such an operator outside all brackets. -/
def level : Precedence → Level
  | .comparison => .comparison
  | .additive => .additive
  | .multiplicative => .multiplicative
  | .power => .power

/-- The level of the left operand. -/
def leftLevel : Precedence → Level
  | .comparison => .comparison
  | .additive => .additive
  | .multiplicative => .multiplicative
  | .power => .primary

/-- The level of the right operand. -/
def rightLevel : Precedence → Level
  | .comparison => .additive
  | .additive => .multiplicative
  | .multiplicative => .signed
  | .power => .signed

end Precedence

namespace Expression

/-! ## The grammar -/

/-- The name of a function: a letter, then letters and digits. -/
def IsName (cs : List Char) : Prop :=
  ∃ c rest, cs = c :: rest ∧ isNameStart c = true ∧ ∀ x ∈ rest, isNamePart x = true

/-- What a grammar leaves open: what may stand between tokens, the numbers
and constants, and the names of functions. -/
structure Grammar where
  space : Char → Bool
  leaf : List Char → Expression → Prop
  name : List Char → Prop
  isBlank_of_space : ∀ c, space c = true → Text.isBlank c = true
  noBrackets_of_leaf : ∀ cs e, leaf cs e → NoBrackets cs
  isName_of_name : ∀ cs, name cs → IsName cs

/-- Spaces of the grammar, any number of them. -/
def Grammar.Spaces (g : Grammar) (cs : List Char) : Prop := ∀ c ∈ cs, g.space c = true

instance (g : Grammar) (cs : List Char) : Decidable (g.Spaces cs) :=
  inferInstanceAs (Decidable (∀ c ∈ cs, g.space c = true))

/-- An argument of a call with the spaces around it. -/
structure Argument where
  before : List Char
  text : List Char
  after : List Char
  tree : Expression

def Argument.written (a : Argument) : List Char := a.before ++ a.text ++ a.after

/-- The arguments with commas between them. -/
def writtenAll (args : List Argument) : List Char := [','].intercalate (args.map Argument.written)

/-- The text renders the tree at the level. -/
inductive Renders (g : Grammar) : Level → List Char → Expression → Prop
  | leaf {cs e} : g.leaf cs e → Renders g .primary cs e
  | group {sp sp' cs e} :
      g.Spaces sp → g.Spaces sp' → Renders g .comparison cs e →
      Renders g .primary ('(' :: (sp ++ cs ++ sp' ++ [')'])) e
  | emptyCall {name sp sp'} :
      g.name name → g.Spaces sp → g.Spaces sp' →
      Renders g .primary (name ++ sp ++ '(' :: (sp' ++ [')'])) (.call (String.ofList name) [])
  | call {name sp args} :
      g.name name → g.Spaces sp → args ≠ [] →
      (∀ a ∈ args, g.Spaces a.before ∧ g.Spaces a.after) →
      (∀ a ∈ args, Renders g .comparison a.text a.tree) →
      Renders g .primary (name ++ sp ++ '(' :: (writtenAll args ++ [')']))
        (.call (String.ofList name) (args.map Argument.tree))
  | negative {sp cs e} :
      g.Spaces sp → Renders g .signed cs e → Renders g .signed ('-' :: (sp ++ cs)) (.negative e)
  | positive {sp cs e} :
      g.Spaces sp → Renders g .signed cs e → Renders g .signed ('+' :: (sp ++ cs)) (.positive e)
  | binary (op : Operator) {l r sp sp' a b} :
      g.Spaces sp → g.Spaces sp' →
      Renders g op.precedence.leftLevel l a → Renders g op.precedence.rightLevel r b →
      Renders g op.precedence.level (l ++ sp ++ op.symbol.toList ++ (sp' ++ r)) (.binary op a b)
  | loosen {lvl lvl' cs e} : lvl'.AsTight lvl → Renders g lvl' cs e → Renders g lvl cs e

/-! ## Brackets of a rendering -/

theorem weight_of_isBlank {c : Char} (h : Text.isBlank c = true) : weight c = 0 :=
  weight_eq_zero_of (p := fun c => Text.isBlank c = true) h (by decide) (by decide)

theorem balanced_of_allBlank {cs : List Char} (h : Text.AllBlank cs) : Balanced cs :=
  balanced_of_noBrackets fun c hc => weight_of_isBlank (h c hc)

theorem weight_of_isNamePart {c : Char} (h : isNamePart c = true) : weight c = 0 :=
  weight_eq_zero_of (p := fun c => isNamePart c = true) h (by decide) (by decide)

theorem IsName.isNamePart {cs : List Char} (h : IsName cs) : ∀ c ∈ cs, isNamePart c = true := by
  obtain ⟨c, rest, rfl, hc, hrest⟩ := h
  intro x hx
  rcases List.mem_cons.mp hx with rfl | hx
  · unfold Expression.isNamePart
    rw [hc]
    rfl
  · exact hrest x hx

theorem balanced_symbol (op : Operator) : Balanced op.symbol.toList := by
  apply balanced_of_noBrackets
  rcases op with op | op
  · cases op <;> exact (by decide)
  · cases op <;> exact (by decide)

theorem isBlank_symbol (op : Operator) : ∀ c ∈ op.symbol.toList, Text.isBlank c = false := by
  rcases op with op | op
  · cases op <;> decide
  · cases op <;> decide

variable {g : Grammar}

theorem Grammar.Spaces.allBlank {cs : List Char} (h : g.Spaces cs) : Text.AllBlank cs :=
  fun c hc => g.isBlank_of_space c (h c hc)

theorem Grammar.Spaces.balanced {cs : List Char} (h : g.Spaces cs) : Balanced cs :=
  balanced_of_allBlank h.allBlank

theorem IsName.balanced {cs : List Char} (h : IsName cs) : Balanced cs :=
  balanced_of_noBrackets fun c hc => weight_of_isNamePart (h.isNamePart c hc)

theorem balanced_intercalate {pieces : List (List Char)} (h : ∀ a ∈ pieces, Balanced a) :
    Balanced ([','].intercalate pieces) := by
  induction pieces with
  | nil => exact balanced_of_noBrackets (by simp [NoBrackets])
  | cons a rest ih =>
    have hrest := ih fun b hb => h b (List.mem_cons_of_mem a hb)
    cases rest with
    | nil => simpa using h a (by simp)
    | cons b rest =>
      have := (h a (by simp)).append (hrest.cons (c := ',') rfl)
      simpa [List.intercalate] using this

/-- The brackets of a rendering are balanced. -/
theorem Renders.balanced {lvl : Level} {cs : List Char} {e : Expression}
    (h : Renders g lvl cs e) : Balanced cs := by
  induction h with
  | leaf h => exact balanced_of_noBrackets (g.noBrackets_of_leaf _ _ h)
  | group hsp hsp' _ ih => exact ((hsp.balanced.append ih).append hsp'.balanced).group
  | emptyCall hname hsp hsp' =>
    exact ((g.isName_of_name _ hname).balanced.append hsp.balanced).append hsp'.balanced.group
  | call hname hsp _ hspaces _ ih =>
    refine ((g.isName_of_name _ hname).balanced.append hsp.balanced).append
      (balanced_intercalate fun t ht => ?_).group
    obtain ⟨a, ha, rfl⟩ := List.mem_map.mp ht
    obtain ⟨hbefore, hafter⟩ := hspaces a ha
    exact (hbefore.balanced.append (ih a ha)).append hafter.balanced
  | negative hsp _ ih => exact (hsp.balanced.append ih).cons rfl
  | positive hsp _ ih => exact (hsp.balanced.append ih).cons rfl
  | binary op hsp hsp' _ _ ihl ihr =>
    exact ((ihl.append hsp.balanced).append (balanced_symbol op)).append (hsp'.balanced.append ihr)
  | loosen _ _ ih => exact ih

end Expression

end Worksheet
