-- Brackets around an expression. A balanced text between brackets is one
-- group: every operator of the text stands inside it, so no scan cuts the
-- whole, and its tree is that of the text. This holds for texts that are no
-- expressions too: they fail with the same fault.
import Worksheet.Proofs.Expression.Operation

namespace Worksheet.Expression

open Text (trim)

/-- Brackets around a balanced text change neither its value nor its fault. -/
theorem evaluate_enclosed (c : Calculator) (text : String) (hbalanced : Balanced text.toList)
    (hwritten : trim text.toList ≠ []) (hunmarked : (trim text.toList).head? ≠ some '=') :
    c.evaluate ("(" ++ text ++ ")") = c.evaluate text := by
  have hgroup : ("(" ++ text ++ ")").toList = '(' :: (text.toList ++ [')']) := by
    simp [String.toList_append]
  have hbody : body ("(" ++ text ++ ")").toList = '(' :: (text.toList ++ [')']) := by
    rw [hgroup, body_of_unmarked, trim_group]
    rw [trim_group]
    simp
  have hinside : body text.toList = trim text.toList := body_of_unmarked hunmarked
  have hopen : body ("(" ++ text ++ ")").toList ≠ [] := by
    rw [hbody]
    simp
  rw [evaluate_of_body hopen, evaluate_of_body (hinside ▸ hwritten), ofText, ofText, hbody, hinside,
    parse_group hbalanced, parse_trim]

/-- A power of a group that lacks an operand: enclosed, it lacks it still. -/
theorem evaluate_enclosed_unfinished :
    Balanced "-2 ^ (1 +)".toList ∧ trim "-2 ^ (1 +)".toList ≠ [] ∧
      (trim "-2 ^ (1 +)".toList).head? ≠ some '=' ∧
      Calculator.builtIn.evaluate ("(" ++ "-2 ^ (1 +)" ++ ")") =
        Calculator.builtIn.evaluate "-2 ^ (1 +)" := by
  have hbalanced : Balanced "-2 ^ (1 +)".toList := by
    have hinner : Balanced ['1', ' ', '+'] := balanced_of_noBrackets (by decide)
    have hfront : Balanced ['-', '2', ' ', '^', ' '] := balanced_of_noBrackets (by decide)
    exact hfront.append hinner.group
  have hwritten : trim "-2 ^ (1 +)".toList ≠ [] := by decide
  have hunmarked : (trim "-2 ^ (1 +)".toList).head? ≠ some '=' := by decide
  exact ⟨hbalanced, hwritten, hunmarked, evaluate_enclosed _ _ hbalanced hwritten hunmarked⟩

end Worksheet.Expression
