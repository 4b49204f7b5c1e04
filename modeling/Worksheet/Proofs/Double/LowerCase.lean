-- Numbers in lower case. Digits and points have no case, an exponent has its
-- mark in either, and the words for what is not finite are read in any case, so
-- a text and its lower case are read as the same double.
import Worksheet.Proofs.Double.Reading
import Worksheet.Proofs.Text.LowerCase

namespace Worksheet.Double

open Text (lower toLower_eq_iff lower_cons)

/-! ## The parts of a number -/

theorem joinGroups?_lower (prev : Char) (cs : List Char) :
    joinGroups? prev.toLower (lower cs) = (joinGroups? prev cs).map lower := by
  have hline : ∀ {c : Char}, c.toLower = '_' ↔ c = '_' := toLower_eq_iff (by decide)
  have hstep : ∀ (c : Char) (o : Option (List Char)),
      (o.map lower).map (c.toLower :: ·) = (o.map (c :: ·)).map lower := by
    intro c o
    cases o <;> rfl
  fun_induction joinGroups? prev cs with
  | case1 => rfl
  | case2 prev d cs hd ih =>
    have hunder : lower ('_' :: d :: cs) = '_' :: d.toLower :: lower cs := rfl
    rw [hunder, joinGroups?, Text.isDigit_toLower, Text.isDigit_toLower, if_pos hd, ih, hstep]
  | case3 prev d cs hd =>
    have hunder : lower ('_' :: d :: cs) = '_' :: d.toLower :: lower cs := rfl
    rw [hunder, joinGroups?, Text.isDigit_toLower, Text.isDigit_toLower, if_neg hd]
    rfl
  | case4 prev cs hnext =>
    cases cs with
    | nil => rfl
    | cons d cs => exact absurd rfl (hnext d cs rfl)
  | case5 prev c cs _ hc ih =>
    have hc' : c.toLower ≠ '_' := fun h => hc (hline.mp h)
    rw [lower_cons, joinGroups?.eq_def]
    split
    · rename_i heq
      cases heq
    · rename_i heq
      exact absurd (List.cons.inj heq).1 hc'
    · rename_i x xs _ heq
      obtain ⟨rfl, rfl⟩ := List.cons.inj heq
      rw [if_neg hc', ih, hstep]

theorem takeSign_lower (cs : List Char) :
    takeSign (lower cs) = ((takeSign cs).1, lower (takeSign cs).2) := by
  have hplus : ∀ {c : Char}, c.toLower = '+' ↔ c = '+' := toLower_eq_iff (by decide)
  have hminus : ∀ {c : Char}, c.toLower = '-' ↔ c = '-' := toLower_eq_iff (by decide)
  cases cs with
  | nil => rfl
  | cons c cs =>
    by_cases hc : c = '-'
    · subst hc
      rfl
    · by_cases hc' : c = '+'
      · subst hc'
        rfl
      · rw [lower_cons, takeSign.eq_def, takeSign.eq_def]
        split
        · rename_i heq
          exact absurd (hminus.mp (List.cons.inj heq).1) hc
        · rename_i heq
          exact absurd (hplus.mp (List.cons.inj heq).1) hc'
        · split
          · rename_i heq
            exact absurd (List.cons.inj heq).1 hc
          · rename_i heq
            exact absurd (List.cons.inj heq).1 hc'
          · rfl

theorem isExponentMark_toLower (c : Char) :
    (c.toLower = 'e' ∨ c.toLower = 'E') ↔ (c = 'e' ∨ c = 'E') := by
  have h : decide (c.toLower = 'e' ∨ c.toLower = 'E') = decide (c = 'e' ∨ c = 'E') :=
    Text.apply_toLower (p := fun c => decide (c = 'e' ∨ c = 'E')) (by decide) c
  exact decide_eq_decide.mp h

theorem readExponent?_lower (cs : List Char) : readExponent? (lower cs) = readExponent? cs := by
  cases cs with
  | nil => rfl
  | cons c cs =>
    simp only [lower_cons, readExponent?, takeSign_lower, isExponentMark_toLower,
      Text.all_lower Text.isDigit_toLower]
    by_cases hall : (takeSign cs).2.all Char.isDigit = true
    · rw [Text.lower_of_digits (List.all_eq_true.mp hall)]
    · rw [if_neg fun h => hall h.2.2, if_neg fun h => hall h.2.2]

theorem takeWhile_isDigit_lower (cs : List Char) :
    (lower cs).takeWhile Char.isDigit = cs.takeWhile Char.isDigit := by
  rw [Text.takeWhile_lower Text.isDigit_toLower]
  exact Text.lower_of_digits fun c hc => List.mem_takeWhile_imp hc

/-- The digits after a point, and what follows them. -/
def takeFraction : List Char → List Char × List Char
  | '.' :: cs => (cs.takeWhile Char.isDigit, cs.dropWhile Char.isDigit)
  | cs => ([], cs)

theorem readDecimal?_eq (cs : List Char) :
    readDecimal? cs =
      let whole := cs.takeWhile Char.isDigit
      let (fraction, tail) := takeFraction (cs.dropWhile Char.isDigit)
      if whole.isEmpty && fraction.isEmpty then none
      else (readExponent? tail).map fun e =>
        ⟨Nat.ofDigitChars 10 (whole ++ fraction) 0, e - (fraction.length : Int)⟩ := rfl

theorem takeFraction_lower (cs : List Char) :
    takeFraction (lower cs) = ((takeFraction cs).1, lower (takeFraction cs).2) := by
  have hpoint : ∀ {c : Char}, c.toLower = '.' ↔ c = '.' := toLower_eq_iff (by decide)
  unfold takeFraction
  split
  · rename_i r hr
    cases cs with
    | nil => cases hr
    | cons c cs =>
      rw [lower_cons] at hr
      obtain ⟨hc, rfl⟩ := List.cons.inj hr
      obtain rfl := hpoint.mp hc
      rw [takeWhile_isDigit_lower, Text.dropWhile_lower Text.isDigit_toLower]
      rfl
  · rename_i r hr
    split
    · rename_i r'
      exact absurd rfl (hr (lower r'))
    · rfl

theorem readDecimal?_lower (cs : List Char) : readDecimal? (lower cs) = readDecimal? cs := by
  rw [readDecimal?_eq, readDecimal?_eq, takeWhile_isDigit_lower,
    Text.dropWhile_lower Text.isDigit_toLower, takeFraction_lower]
  simp only [readExponent?_lower]

theorem readUnsigned?_lower (negative : Bool) (cs : List Char) :
    readUnsigned? negative (lower cs) = readUnsigned? negative cs := by
  have hword : (lower cs).map Char.toLower = cs.map Char.toLower := by
    unfold lower
    rw [List.map_map]
    exact List.map_congr_left fun c _ => Text.toLower_toLower c
  unfold readUnsigned?
  rw [hword, readDecimal?_lower]

/-! ## Numbers -/

/-- A number is read in any case. -/
theorem read?_lower (cs : List Char) : read? (lower cs) = read? cs := by
  have hdigits : (lower (Text.trim cs)).map Text.asciiDigit =
      lower ((Text.trim cs).map Text.asciiDigit) := by
    unfold lower
    rw [List.map_map, List.map_map]
    exact List.map_congr_left fun c _ => Text.asciiDigit_toLower c
  have hjoin : joinGroups? ' ' (lower ((Text.trim cs).map Text.asciiDigit)) =
      (joinGroups? ' ' ((Text.trim cs).map Text.asciiDigit)).map lower := joinGroups?_lower ' ' _
  unfold read?
  rw [Text.trim_lower, hdigits, hjoin]
  cases joinGroups? ' ' ((Text.trim cs).map Text.asciiDigit) with
  | none => rfl
  | some js =>
    rw [Option.map_some]
    dsimp only
    rw [takeSign_lower]
    exact readUnsigned?_lower _ _

end Worksheet.Double
