-- Cuts at a character: an operator of a class ends there, with an operand on
-- each side. A cut stays one when more text stands on either side, unless a
-- number ends right before it, whose exponent the operator could be part of.
import Worksheet.Proofs.Expression.Scan

namespace Worksheet.Expression

open Text (trim)

/-! ## Cuts in a longer text -/

theorem isSignPosition_append_eq_false {before : List Char} (ctx : List Char)
    (h : isSignPosition before = false) : isSignPosition (before ++ ctx) = false := by
  unfold isSignPosition at *
  rw [List.dropWhile_append]
  cases hdrop : before.dropWhile (· == ' ') with
  | nil =>
    rw [hdrop] at h
    cases h
  | cons c rest =>
    rw [hdrop] at h
    exact h

/-- No number ends where the text begins. -/
def ClearOfNumbers (ctx : List Char) : Prop :=
  ∀ x ∈ ctx.head?, Text.looksLikeDigit x = false ∧ x ≠ '.'

theorem clear_of_isBlank {sp rest : List Char} (h : Text.AllBlank sp)
    (hrest : ClearOfNumbers rest) : ClearOfNumbers (sp ++ rest) := by
  cases sp with
  | nil => exact hrest
  | cons b sp =>
    intro x hx
    cases hx
    have hb := h b (by simp)
    refine ⟨Text.looksLikeDigit_of_isBlank hb, ?_⟩
    rintro rfl
    exact absurd hb (by decide)

theorem endsAtExponent_append_eq_false {before ctx : List Char} (hne : before ≠ [])
    (hctx : ClearOfNumbers ctx) (h : endsAtExponent before = false) :
    endsAtExponent (before ++ ctx) = false := by
  cases before with
  | nil => exact absurd rfl hne
  | cons e before =>
    cases before with
    | cons d before => exact h
    | nil =>
      cases ctx with
      | nil => rfl
      | cons x ctx =>
        obtain ⟨hdigit, hpoint⟩ := hctx x rfl
        simp [endsAtExponent, hdigit, hpoint]

theorem singleComparison?_append {p c a : Char} (before after ctx tail : List Char) :
    singleComparison? (p :: before ++ ctx) c (a :: after ++ tail) =
      singleComparison? (p :: before) c (a :: after) := by
  unfold singleComparison?
  simp only [List.cons_append]
  split
  · split <;> simp_all
  · split
    · split <;> simp_all
    · rfl

/-- An operator with text on both sides stays one when there is more text. -/
theorem operatorAt?_append {cls : Precedence} {before after b ctx : List Char} {c : Char}
    {op : Operator} (tail : List Char) (hbefore : before ≠ []) (hafter : after ≠ [])
    (hctx : ClearOfNumbers ctx) (h : operatorAt? cls before c after = some (op, b)) :
    operatorAt? cls (before ++ ctx) c (after ++ tail) = some (op, b ++ ctx) := by
  obtain ⟨p, rest, rfl⟩ := List.exists_cons_of_ne_nil hbefore
  obtain ⟨a, after, rfl⟩ := List.exists_cons_of_ne_nil hafter
  cases cls with
  | comparison =>
    have hsingle := singleComparison?_append (p := p) (c := c) (a := a) rest after ctx tail
    unfold operatorAt? at h ⊢
    simp only [List.cons_append] at h ⊢ hsingle
    rw [hsingle]
    cases hdouble : doubleComparison? p c with
    | some o =>
      rw [hdouble] at h
      cases h
      rfl
    | none =>
      rw [hdouble] at h
      dsimp only at h ⊢
      rw [Option.map_eq_some_iff] at h ⊢
      obtain ⟨o, ho, he⟩ := h
      cases he
      exact ⟨o, ho, rfl⟩
  | additive =>
    have hexp := endsAtExponent_append_eq_false hbefore hctx
    simp only [operatorAt?] at h ⊢
    grind
  | multiplicative =>
    simp only [operatorAt?] at h ⊢
    grind
  | power =>
    simp only [operatorAt?] at h ⊢
    grind

theorem trim_append_ne_nil {u : List Char} (before after : List Char) (h : trim u ≠ []) :
    trim (before ++ u ++ after) ≠ [] := by
  rw [Ne, Text.trim_eq_nil_iff] at h ⊢
  intro hall
  refine h fun c hc => hall c ?_
  simp [hc]

/-- A cut stays one in a longer text, unless a number ends before it. -/
theorem cutHere?_append {cls : Precedence} {before after ctx : List Char} {c : Char} {s : Split}
    (tail : List Char) (hctx : ClearOfNumbers ctx) (h : cutHere? cls before c after = some s) :
    ∃ t, cutHere? cls (before ++ ctx) c (after ++ tail) = some t := by
  have hbefore : before ≠ [] := by
    rintro rfl
    rw [cutHere?_nil] at h
    cases h
  unfold cutHere? binaryAt? at h
  rw [Option.bind_eq_some_iff] at h
  obtain ⟨⟨op, b⟩, hb, hs⟩ := h
  rw [Option.filter_eq_some_iff] at hb
  obtain ⟨hop, hpos⟩ := hb
  obtain ⟨-, hl, hr⟩ := splitAt?_spec hs
  have hafter : after ≠ [] := by
    rintro rfl
    exact hr rfl
  have hsign := isSignPosition_append_eq_false ctx (by simpa using hpos)
  have hleft : trim (b ++ ctx).reverse ≠ [] := by
    rw [List.reverse_append]
    simpa using trim_append_ne_nil ctx.reverse [] hl
  have hright : trim (after ++ tail) ≠ [] := trim_append_ne_nil [] tail hr
  unfold cutHere? binaryAt?
  rw [operatorAt?_append tail hbefore hafter hctx hop]
  refine ⟨⟨trim (b ++ ctx).reverse, op, trim (after ++ tail)⟩, ?_⟩
  rw [Option.filter_some, hsign]
  exact splitAt?_of_ne_nil op hleft hright

end Worksheet.Expression
