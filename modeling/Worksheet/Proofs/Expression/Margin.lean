-- Blanks around a text. The scans look past the blanks at both ends: an
-- operator stays where it is, and with blanks alone on one side it has no
-- operand there. So a text is cut as its trimmed text is.
import Worksheet.Proofs.Expression.Cut
import Worksheet.Proofs.Expression.Grammar
import Worksheet.Proofs.Expression.Literal

namespace Worksheet.Expression

open Text (trim AllBlank)

variable {sp sp' : List Char}

/-! ## Blanks are no operators -/

theorem not_takes_of_isBlank {cls : Precedence} {before : List Char} {c : Char}
    (h : Text.isBlank c = true) : ¬ Takes cls before c := by
  have hall : ∀ x ∈ ['>', '<', '=', '+', '-', '*', '/', '%', '^'], Text.isBlank x = false := by
    decide
  intro htakes
  rw [hall c (mem_of_takes htakes)] at h
  cases h

theorem quiet_of_allBlank {cls : Precedence} {d : Int} {before : List Char} (h : AllBlank sp) :
    Quiet cls d before sp :=
  outside_of_forall fun c hc _ => not_takes_of_isBlank (h c hc)

theorem doubleComparison?_of_isBlank {b : Char} (c : Char) (h : Text.isBlank b = true) :
    doubleComparison? b c = none := by
  cases hop : doubleComparison? b c with
  | none => rfl
  | some op =>
    have hsymbol := (doubleComparison?_eq_some hop).1
    rw [isBlank_symbol (.comparison op) b (by rw [Operator.symbol, hsymbol]; simp)] at h
    cases h

theorem ne_cons_of_allBlank {x : Char} (rest : List Char) (h : AllBlank sp)
    (hx : Text.isBlank x = false) : sp ≠ x :: rest := by
  rintro rfl
  rw [h x (by simp)] at hx
  cases hx

/-! ## An operator between blanks -/

theorem singleComparison?_between (before : List Char) (c : Char) (after : List Char)
    (hsp : AllBlank sp) (hsp' : AllBlank sp') :
    singleComparison? (before ++ sp) c (after ++ sp') = singleComparison? before c after := by
  have hne : ∀ x ∈ ['>', '<', '=', '!'], ∀ rest, sp ≠ x :: rest ∧ sp' ≠ x :: rest := by
    have hall : ∀ x ∈ ['>', '<', '=', '!'], Text.isBlank x = false := by decide
    intro x hx rest
    exact ⟨ne_cons_of_allBlank rest hsp (hall x hx), ne_cons_of_allBlank rest hsp' (hall x hx)⟩
  simp only [List.forall_mem_cons] at hne
  unfold singleComparison?
  split
  · cases after with
    | nil => grind
    | cons a after => grind
  · split
    · cases before with
      | nil => grind
      | cons p before => grind
    · rfl

theorem endsAtExponent_between (before : List Char) (hsp : AllBlank sp) :
    endsAtExponent (before ++ sp) = endsAtExponent before := by
  cases before with
  | nil =>
    cases sp with
    | nil => rfl
    | cons b sp => exact endsAtExponent_of_isBlank sp (hsp b (by simp))
  | cons e before =>
    cases before with
    | cons d before => rfl
    | nil =>
      have hnone : ClearOfNumbers [] := by simp [ClearOfNumbers]
      have hclear := clear_of_isBlank hsp hnone
      rw [List.append_nil] at hclear
      exact endsAtExponent_append_eq_false (by simp) hclear rfl

/-- The operator at a character is the same with blanks around the text. -/
theorem operatorAt?_between (cls : Precedence) (before : List Char) (c : Char) (after : List Char)
    (hsp : AllBlank sp) (hsp' : AllBlank sp') :
    operatorAt? cls (before ++ sp) c (after ++ sp') =
      (operatorAt? cls before c after).map fun p => (p.1, p.2 ++ sp) := by
  cases cls with
  | comparison =>
    have hsingle := singleComparison?_between before c after hsp hsp'
    rw [operatorAt?.eq_def, operatorAt?.eq_def]
    dsimp only
    cases before with
    | cons p rest =>
      rw [List.cons_append] at hsingle ⊢
      dsimp only
      rw [hsingle]
      cases doubleComparison? p c with
      | some op => rfl
      | none => cases singleComparison? (p :: rest) c after <;> rfl
    | nil =>
      rw [List.nil_append] at hsingle ⊢
      rw [hsingle]
      cases sp with
      | nil => cases singleComparison? [] c after <;> rfl
      | cons b sp =>
        dsimp only
        rw [doubleComparison?_of_isBlank c (hsp b (by simp))]
        cases singleComparison? [] c after <;> rfl
  | additive =>
    simp only [operatorAt?, endsAtExponent_between before hsp]
    grind
  | multiplicative =>
    simp only [operatorAt?]
    grind
  | power =>
    simp only [operatorAt?]
    grind

/-- Behind an operand the blanks in front of it do not matter. -/
theorem isSignPosition_between {before : List Char} (sp : List Char)
    (h : trim before.reverse ≠ []) : isSignPosition (before ++ sp) = isSignPosition before := by
  have hne : before.dropWhile (· == ' ') ≠ [] := by
    rw [Ne, Text.trim_eq_nil_iff] at h
    intro hnil
    refine h fun c hc => ?_
    have hspace := List.dropWhile_eq_nil_iff.mp hnil c (List.mem_reverse.mp hc)
    rw [beq_iff_eq] at hspace
    rw [hspace]
    rfl
  obtain ⟨c, rest, hdrop⟩ := List.exists_cons_of_ne_nil hne
  unfold isSignPosition
  rw [List.dropWhile_append, hdrop]
  rfl

theorem trim_reverse_between (before : List Char) (hsp : AllBlank sp) :
    trim (before ++ sp).reverse = trim before.reverse := by
  have hbetween := Text.trim_between hsp.reverse Text.allBlank_nil before.reverse
  rwa [List.append_nil, ← List.reverse_append] at hbetween

theorem splitAt?_between (before : List Char) (op : Operator) (after : List Char)
    (hsp : AllBlank sp) (hsp' : AllBlank sp') :
    splitAt? (before ++ sp) op (after ++ sp') = splitAt? before op after := by
  have hright : trim (after ++ sp') = trim after := Text.trim_between Text.allBlank_nil hsp' after
  unfold splitAt?
  rw [trim_reverse_between before hsp, hright]

/-- The cut at a character is the same with blanks around the text. Where there
is no left operand the blanks can make a sign an operator, but then there is no
cut at all. -/
theorem cutHere?_between (cls : Precedence) (before : List Char) (c : Char) (after : List Char)
    (hsp : AllBlank sp) (hsp' : AllBlank sp') :
    cutHere? cls (before ++ sp) c (after ++ sp') = cutHere? cls before c after := by
  unfold cutHere? binaryAt?
  rw [operatorAt?_between cls before c after hsp hsp']
  cases operatorAt? cls before c after with
  | none => rfl
  | some p =>
    obtain ⟨op, b⟩ := p
    have hsplit := splitAt?_between b op after hsp hsp'
    rw [Option.map_some, Option.filter_some, Option.filter_some]
    dsimp only
    by_cases hleft : trim b.reverse = []
    · have hnone : splitAt? b op after = none := by
        unfold splitAt?
        rw [hleft]
        rfl
      split <;> split <;> simp [hsplit, hnone]
    · rw [isSignPosition_between sp hleft]
      split <;> simp [hsplit]

/-! ## The scans between blanks -/

theorem lastSplit?_of_allBlank {cls : Precedence} (after : List Char) (d : Int)
    (h : AllBlank sp) : lastSplit? cls sp after d = none := by
  have hquiet : Quiet cls d [] sp.reverse := quiet_of_allBlank h.reverse
  have hscan := lastSplit?_append_of_quiet after hquiet
  rw [List.reverse_reverse, List.append_nil, (balanced_of_allBlank h.reverse).settled,
    Int.add_zero] at hscan
  rw [hscan, lastSplit?]

/-- The scan from the right, the text before it read backwards. -/
theorem lastSplit?_between {cls : Precedence} (back after : List Char) (d : Int)
    (hsp : AllBlank sp) (hsp' : AllBlank sp') :
    lastSplit? cls (back ++ sp) (after ++ sp') d = lastSplit? cls back after d := by
  induction back generalizing after d with
  | nil => rw [List.nil_append, lastSplit?_of_allBlank _ d hsp, lastSplit?]
  | cons c back ih =>
    have hnext := ih (c :: after) (d - weight c)
    rw [List.cons_append] at hnext
    rw [List.cons_append, lastSplit?_step, lastSplit?_step, hnext,
      cutHere?_between cls back c after hsp hsp']

theorem firstPower?_of_allBlank (before : List Char) (d : Int) (h : AllBlank sp) :
    firstPower? before sp d = none := by
  have hquiet : Quiet .power d before sp := quiet_of_allBlank h
  have hscan := firstPower?_append_of_quiet [] hquiet
  rw [List.append_nil] at hscan
  rw [hscan, firstPower?]

theorem firstPower?_between (before after : List Char) (d : Int) (hsp : AllBlank sp)
    (hsp' : AllBlank sp') :
    firstPower? (before ++ sp) (after ++ sp') d = firstPower? before after d := by
  induction after generalizing before d with
  | nil => rw [List.nil_append, firstPower?_of_allBlank _ d hsp', firstPower?]
  | cons c after ih =>
    have htrim := trim_reverse_between before hsp
    have hnext := ih (c :: before) (d + weight c)
    rw [List.cons_append] at hnext
    cases hsign : beginsWithSign (trim before.reverse) with
    | true =>
      rw [firstPower?_eq_none_of_signed _ d hsign,
        firstPower?_eq_none_of_signed _ d (by rw [htrim]; exact hsign)]
    | false =>
      rw [List.cons_append, firstPower?_step c after d hsign,
        firstPower?_step c (after ++ sp') d (by rw [htrim]; exact hsign), hnext,
        cutHere?_between .power before c after hsp hsp']

/-! ## Cuts between blanks -/

/-- Blanks around a text do not matter for its cut. -/
theorem split?_between (cs : List Char) (hsp : AllBlank sp) (hsp' : AllBlank sp') :
    split? (sp ++ cs ++ sp') = split? cs := by
  have hlast : ∀ cls, lastSplit? cls (sp ++ cs ++ sp').reverse [] 0 =
      lastSplit? cls cs.reverse [] 0 := by
    intro cls
    have hquiet : Quiet cls 0 (cs.reverse ++ sp.reverse) sp' := quiet_of_allBlank hsp'
    have hscan := lastSplit?_append_of_quiet [] hquiet
    rw [(balanced_of_allBlank hsp').settled, Int.add_zero, List.append_nil] at hscan
    rw [List.reverse_append, List.reverse_append, hscan]
    exact lastSplit?_between cs.reverse [] 0 hsp.reverse hsp'
  have hfirst : firstPower? [] (sp ++ cs ++ sp') 0 = firstPower? [] cs 0 := by
    have hquiet : Quiet .power 0 [] sp := quiet_of_allBlank hsp
    have hscan := firstPower?_append_of_quiet (cs ++ sp') hquiet
    rw [(balanced_of_allBlank hsp).settled, Int.add_zero, List.append_nil] at hscan
    rw [List.append_assoc, hscan]
    exact firstPower?_between [] cs 0 hsp.reverse hsp'
  unfold split?
  rw [hlast, hlast, hlast, hfirst]

theorem split?_trim (cs : List Char) : split? (trim cs) = split? cs := by
  obtain ⟨sp, sp', hsp, hsp', he⟩ := Text.exists_trim cs
  rw [← split?_between (trim cs) hsp hsp', ← he]

end Worksheet.Expression
