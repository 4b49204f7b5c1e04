-- What a displayed value counts as. A cell keeps the text of its value, and a
-- summary reads the text again. The text of a number is read as the number
-- itself, a zero as the positive one. The words for truth values and for a
-- failure are no numbers.
import Worksheet.Proofs.Expression.ReadBack
import Worksheet.Proofs.Summary.Alike

namespace Worksheet

open Expression

namespace Double

/-! ## Signs -/

theorem neg_assemble (s : Bool) (m : Nat) (e : Int) :
    (assemble s m e).neg = assemble (!s) m e := by
  unfold assemble
  split
  · rfl
  · rfl

/-- Rounding is symmetric. -/
theorem neg_ofMagnitude (s : Bool) (q : Rat) : (ofMagnitude s q).neg = ofMagnitude (!s) q := by
  unfold ofMagnitude
  split
  · rfl
  · dsimp only
    split
    · exact neg_assemble s _ _
    · exact neg_assemble s _ _

theorem toDouble_shortest_signed (s : Bool) (m : Nat) (e : Int) (h : Canonical m e) :
    (shortest (.finite s m e h)).toDouble s = .finite s m e h := by
  have hpositive := toDouble_shortest s m e h
  cases s with
  | false => exact hpositive
  | true =>
    have hneg := congrArg neg hpositive
    rw [Decimal.toDouble_eq, neg_ofMagnitude, ← Decimal.toDouble_eq] at hneg
    exact hneg

/-- A finite double is the rounding of its value, up to the sign of a zero. -/
theorem alike_ofRat_value {x : Double} (h : x.isFinite = true) : Alike x (ofRat x.value) := by
  cases x with
  | nan => cases h
  | infinity s => cases h
  | finite s m e hc =>
    have hround := ofMagnitude_magnitude hc
    rcases (magnitude_nonneg m e).eq_or_lt with hzero | hpos
    · have hvalue : (finite s m e hc).value = 0 := by simp [value, ← hzero]
      have hx : finite s m e hc = zero s := by
        rw [← hround, ← hzero]
        rfl
      rw [hvalue, hx]
      exact .zeros s false
    · refine Or.inl ?_
      unfold ofRat value
      cases s with
      | false =>
        have hnum : ¬ (magnitude m e).num < 0 := not_lt.mpr (Rat.num_nonneg.mpr hpos.le)
        simp only [Bool.false_eq_true, if_false, if_neg hnum, hround]
      | true =>
        have hnum : (-magnitude m e).num < 0 := Rat.num_neg.mpr (neg_lt_zero.mpr hpos)
        simp only [if_true, if_pos hnum, neg_neg, hround]

/-! ## Digits -/

theorem toDouble_ofNat (n : Nat) (s : Bool) :
    (Literal.ofNat n).decimal.toDouble s = ofMagnitude s n := by
  have hvalue : (Literal.ofNat n).decimal.value = n := by
    have hdigits := (asciiDigits_toDigits n).digitRunValue
    rw [Nat.ofDigitChars_ten_toDigits] at hdigits
    simp [Literal.ofNat, Literal.decimal, Decimal.value, hdigits]
  rw [Decimal.toDouble_eq, hvalue]

/-- The digits of an integer are read as the double that it is rounded to. -/
theorem read?_intDigits (n : Int) : read? (intDigits n).toList = some (ofInt n) := by
  unfold intDigits
  dsimp only
  rw [String.toList_ofList, ← Literal.text_ofNat, ofInt_eq]
  split
  · rename_i hneg
    rw [Literal.read?_minus_text, toDouble_ofNat, decide_eq_true hneg]
  · rename_i hpos
    rw [Literal.read?_text, toDouble_ofNat, decide_eq_false hpos]

/-! ## Doubles -/

theorem read?_write (x : Double) : read? (x.write cellStyle).toList = some x := by
  cases x with
  | nan => rfl
  | infinity s => cases s <;> rfl
  | finite s m e h =>
    obtain ⟨l, htext, hvalue, -⟩ := writesValue_decimalText 1 (shortest (.finite s m e h))
    have hread : l.decimal.toDouble s = .finite s m e h := by
      rw [Decimal.toDouble_of_value_eq hvalue, toDouble_shortest_signed]
    unfold write
    dsimp only
    rw [String.toList_ofList, show cellStyle.exponentDigits = 1 from rfl, ← htext]
    cases s with
    | false => rw [← hread]; exact l.read?_text
    | true => rw [← hread]; exact l.read?_minus_text

theorem read?_cellText (x : Double) :
    ∃ y, read? x.cellText.toList = some y ∧ Alike x y := by
  by_cases hsmall : x.isIntegral ∧ x.value.num.natAbs < exponentBound
  · obtain ⟨hfinite, hvalue⟩ := value_eq_num hsmall.1
    have htext : x.cellText = intDigits x.value.num := if_pos hsmall
    rw [htext]
    refine ⟨ofInt x.value.num, read?_intDigits _, ?_⟩
    unfold ofInt
    rw [← hvalue]
    exact alike_ofRat_value hfinite
  · have htext : x.cellText = x.write cellStyle := if_neg hsmall
    rw [htext]
    exact ⟨x, read?_write x, .refl x⟩

end Double

/-! ## Numbers -/

/-- The double nearest to a number; past the range it is an infinity. -/
def Number.nearest : Number → Double
  | .int n => Double.ofInt n
  | .double x => x

/-- The text of a number counts as the double nearest to it. -/
theorem rowDouble?_display_number (n : Number) :
    ∃ text y, (Value.ofNumber n).display = .ok text ∧
      (Value.text text).rowDouble? = some y ∧ Double.Alike n.nearest y := by
  cases n with
  | int n =>
    have hread : ∃ y, Double.read? (intCellText n).toList = some y ∧ (Double.ofInt n).Alike y := by
      unfold intCellText
      split
      · exact ⟨_, Double.read?_intDigits n, .refl _⟩
      · exact Double.read?_cellText _
    obtain ⟨y, hy, halike⟩ := hread
    exact ⟨_, y, rfl, hy, halike⟩
  | double x =>
    obtain ⟨y, hy, halike⟩ := Double.read?_cellText x
    exact ⟨_, y, rfl, hy, halike⟩

/-! ## Words -/

theorem rowDouble?_failedText : (Value.text failedText).rowDouble? = none := by decide +kernel

/-- A truth value has a text, and it counts as no number. -/
theorem rowDouble?_display_bool (b : Bool) :
    ∃ text, (Value.bool b).display = .ok text ∧ (Value.text text).rowDouble? = none := by
  refine ⟨_, rfl, ?_⟩
  revert b
  decide +kernel

/-! ## Rows that are no numbers -/

theorem mapM_rowDouble?_eq_none_iff (rows : List Value) :
    rows.mapM Value.rowDouble? = none ↔ ∃ v ∈ rows, v.rowDouble? = none := by
  induction rows with
  | nil => simp
  | cons v rest ih =>
    rw [List.exists_mem_cons_iff, List.mapM_cons]
    cases hv : v.rowDouble? with
    | none => simp
    | some x =>
      rw [← ih]
      cases rest.mapM Value.rowDouble? with
      | none => simp
      | some xs => simp

/-- A row that is no number fails a summary. -/
theorem Aggregation.summarise_of_unread [Reductions] {a : Aggregation} (ha : a ≠ .none)
    {rows : List Value} (h : ∃ v ∈ rows, v.rowDouble? = Option.none) :
    a.summarise rows = ⟨a, failedText, some .aggregationFailed⟩ := by
  unfold summarise
  rw [if_neg ha, (mapM_rowDouble?_eq_none_iff rows).mpr h]

/-- Of rows that are numbers a summary shows a number. -/
theorem Aggregation.summarise_of_read [Reductions] {a : Aggregation} (ha : a ≠ .none)
    {rows : List Value} (h : ¬ ∃ v ∈ rows, v.rowDouble? = Option.none) :
    ∃ x : Double, a.summarise rows = ⟨a, x.cellText, Option.none⟩ := by
  rw [← mapM_rowDouble?_eq_none_iff, ← ne_eq, Option.ne_none_iff_exists'] at h
  obtain ⟨xs, hxs⟩ := h
  unfold summarise
  rw [if_neg ha, hxs]
  exact ⟨a.reduce xs, rfl⟩

end Worksheet
