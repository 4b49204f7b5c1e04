-- What a cell shows can be read again. A small integer shows its digits and is
-- read as itself. A double shows digits too, if it is a small integer, and is
-- then read as an integer; any other shows a literal of its shortest decimal,
-- which leads back to it, or a word. Large integers show the double they are
-- rounded to, and rounding does not make them small.
import Worksheet.Proofs.Double.Integer
import Worksheet.Proofs.Expression.DecimalText
import Worksheet.Proofs.Reference.Formula

namespace Worksheet

open Expression

/-- The text of the value is read as the other value, and that one has the
same text. -/
def ReadsBack (c : Calculator) (v w : Value) : Prop :=
  ∃ text, v.display = .ok text ∧ c.evaluate text = .ok w ∧ w.display = .ok text

/-! ## Signs -/

theorem evaluate_ofList (c : Calculator) {lvl : Level} {cs : List Char} {e : Expression}
    (h : Renders plain lvl cs e) : c.evaluate (String.ofList cs) = e.eval c := by
  simpa using evaluate_of_renders c h spaces_nil spaces_nil

/-- A number without a sign, or with a minus sign in front. -/
theorem evaluate_signed (c : Calculator) {cs : List Char} {n : Number} (negative : Bool)
    (h : Renders plain .primary cs (.number n)) :
    c.evaluate (String.ofList (if negative then '-' :: cs else cs)) =
      .ok (.ofNumber (if negative then n.neg else n)) := by
  cases negative with
  | false => exact evaluate_ofList c h
  | true =>
    have hneg := evaluate_ofList c (Renders.negative spaces_nil (h.of_primary .signed))
    have hvalue : (Expression.negative (.number n)).eval c = .ok (.ofNumber n.neg) := by
      cases n <;> rfl
    rwa [hvalue] at hneg

/-! ## Integers -/

theorem evaluate_intDigits (c : Calculator) {n : Int} (h : n.natAbs < exponentBound) :
    c.evaluate (intDigits n) = .ok (.int n) := by
  have hsigned := evaluate_signed c (decide (n < 0)) (renders_ofNat h)
  have hvalue : (if n < 0 then (Number.int n.natAbs).neg else .int n.natAbs) = .int n := by
    split_ifs with hneg
    · rw [Number.neg]
      congr 1
      omega
    · congr 1
      omega
  simp only [decide_eq_true_eq] at hsigned
  rw [hvalue] at hsigned
  exact hsigned

/-! ## Doubles -/

theorem evaluate_decimalText (c : Calculator) (width : Nat) (d : Decimal) (negative : Bool) :
    c.evaluate (String.ofList (if negative then '-' :: Double.decimalText width d
      else Double.decimalText width d)) =
      .ok (.double (if negative then (d.toDouble false).neg else d.toDouble false)) := by
  obtain ⟨l, htext, hvalue, hdouble⟩ := writesValue_decimalText width d
  have hnumber : l.number = .double (d.toDouble false) := by
    unfold Literal.number
    rw [if_neg fun h => hdouble ⟨h.1, h.2.1⟩, Decimal.toDouble_of_value_eq hvalue]
  have hleaf := Renders.leaf (g := plain) (.number l)
  rw [htext, hnumber] at hleaf
  rw [evaluate_signed c negative hleaf]
  cases negative <;> rfl

theorem parse_infinity :
    parse "Infinity".toList = .number (.double (.infinity false)) := by
  rw [parse_eq]
  rfl

/-- What is not finite shows as a word, and is read as that word. -/
theorem evaluate_word (c : Calculator) :
    c.evaluate "NaN" = .ok (.double .nan) ∧
      c.evaluate "Infinity" = .ok (.double (.infinity false)) ∧
      c.evaluate "-Infinity" = .ok (.double (.infinity true)) := by
  have hnan : parse "NaN".toList = .number (.double .nan) := by
    rw [parse_eq]
    rfl
  have hnegative : parse "-Infinity".toList = .negative (parse "Infinity".toList) := by
    rw [parse_eq]
    rfl
  refine ⟨?_, ?_, ?_⟩
  · exact congrArg (Expression.eval c) hnan
  · exact congrArg (Expression.eval c) parse_infinity
  · rw [parse_infinity] at hnegative
    exact congrArg (Expression.eval c) hnegative

theorem evaluate_write (c : Calculator) (x : Double) :
    c.evaluate (x.write Double.cellStyle) = .ok (.double x) := by
  cases x with
  | nan => exact (evaluate_word c).1
  | infinity s =>
    cases s with
    | false => exact (evaluate_word c).2.1
    | true => exact (evaluate_word c).2.2
  | finite s m e h =>
    have hread := evaluate_decimalText c 1 (Double.shortest (.finite s m e h)) s
    rw [Double.toDouble_shortest] at hread
    cases s <;> exact hread

/-- A double without a fractional part is an integer. -/
theorem Double.value_eq_num {x : Double} (h : x.isIntegral = true) :
    x.isFinite = true ∧ x.value = x.value.num := by
  cases x with
  | nan => cases h
  | infinity s => cases h
  | finite s m e hc =>
    have hden : (Double.finite s m e hc).value.den = 1 := by simpa [isIntegral] using h
    exact ⟨rfl, (Rat.coe_int_num_of_den_eq_one hden).symm⟩

/-- A displayed double is read as itself, or as the integer that it is. -/
theorem readsBack_double (c : Calculator) (x : Double) :
    ∃ w, ReadsBack c (.double x) w ∧
      (w = .double x ∨ ∃ n : Int, w = .int n ∧ x.isFinite = true ∧ x.value = n) := by
  have hdisplay : (Value.double x).display = .ok x.cellText := rfl
  by_cases hsmall : x.isIntegral ∧ x.value.num.natAbs < exponentBound
  · have htext : x.cellText = intDigits x.value.num := if_pos hsmall
    refine ⟨.int x.value.num, ⟨x.cellText, hdisplay, ?_, ?_⟩, Or.inr ⟨_, rfl, ?_⟩⟩
    · rw [htext]
      exact evaluate_intDigits c hsmall.2
    · rw [htext]
      exact congrArg Except.ok (if_pos hsmall.2)
    · exact Double.value_eq_num hsmall.1
  · have htext : x.cellText = x.write Double.cellStyle := if_neg hsmall
    refine ⟨.double x, ⟨x.cellText, hdisplay, ?_, hdisplay⟩, Or.inl rfl⟩
    rw [htext]
    exact evaluate_write c x

/-! ## Large integers -/

theorem Double.abs_value (x : Double) : |x.value| = x.absValue := by
  cases x with
  | nan => exact abs_zero
  | infinity s => exact abs_zero
  | finite s m e h =>
    have hnonneg := abs_of_nonneg (magnitude_nonneg m e)
    cases s <;> simpa [value, absValue] using hnonneg

/-- A large integer is rounded to a double that is large as well. The least
large integer is a double itself. -/
theorem Double.not_small_ofInt {n : Int} (h : exponentBound ≤ n.natAbs) :
    ¬ ((Double.ofInt n).isIntegral ∧ (Double.ofInt n).value.num.natAbs < exponentBound) := by
  rintro ⟨hint, hsmall⟩
  have hnum := (value_eq_num hint).2
  have habs := abs_value (Double.ofInt n)
  rw [Double.ofInt_eq] at *
  rcases ofMagnitude_cases (decide (n < 0)) (n.natAbs : Rat) with ⟨m, e, hc, hround⟩ | hround
  · have hbound : magnitude 7629394531250000 17 = exponentBound := by
      unfold magnitude exponentBound
      norm_num
    have hle : magnitude 7629394531250000 17 ≤ n.natAbs := by
      rw [hbound]
      exact_mod_cast h
    have hlarge := magnitude_le_of_ofMagnitude (by decide) hle hround
    rw [hround] at hsmall hnum habs
    rw [hbound, ← show _ = magnitude m e from habs, hnum] at hlarge
    have hlarge : (exponentBound : Int) ≤ |(finite (decide (n < 0)) m e hc).value.num| := by
      exact_mod_cast hlarge
    rw [Int.abs_eq_natAbs] at hlarge
    omega
  · rw [hround] at hint
    cases hint

/-- A large integer is read as the double that it is rounded to. -/
theorem readsBack_int (c : Calculator) (n : Int) :
    ReadsBack c (.int n)
      (if n.natAbs < exponentBound then .int n else .double (Double.ofInt n)) := by
  have hdisplay : (Value.int n).display = .ok (intCellText n) := rfl
  by_cases hsmall : n.natAbs < exponentBound
  · have htext : intCellText n = intDigits n := if_pos hsmall
    rw [if_pos hsmall]
    refine ⟨intCellText n, hdisplay, ?_, hdisplay⟩
    rw [htext]
    exact evaluate_intDigits c hsmall
  · have htext : intCellText n = (Double.ofInt n).cellText := if_neg hsmall
    have hwrite : (Double.ofInt n).cellText = (Double.ofInt n).write Double.cellStyle :=
      if_neg (Double.not_small_ofInt (not_lt.mp hsmall))
    rw [if_neg hsmall]
    refine ⟨intCellText n, hdisplay, ?_, ?_⟩
    · rw [htext, hwrite]
      exact evaluate_write c _
    · rw [htext]
      rfl

/-! ## Truth values -/

theorem readsBack_bool (c : Calculator) (b : Bool) : ReadsBack c (.bool b) (.bool b) := by
  have hspells : Spells (if b then .true else .false) (if b then "true" else "false").toList := by
    unfold Spells
    cases b <;> decide
  have hread := evaluate_ofList c (Renders.leaf (g := plain) (.constant hspells))
  rw [String.ofList_toList] at hread
  refine ⟨if b then "true" else "false", rfl, ?_, rfl⟩
  rw [hread]
  cases b <;> rfl

/-! ## The law -/

/-- Every displayed truth value, integer and double is read back as a value
with the same text. A truth value is read as itself. So is an integer below
the bound, and any other is read as the double that it is rounded to, or as
the infinity of its sign where it is past the range. A double is read as
itself, or as an integer that is the same number. -/
theorem displayed_values_read_back (c : Calculator) :
    (∀ b, ReadsBack c (.bool b) (.bool b)) ∧
      (∀ n : Int,
        ReadsBack c (.int n)
          (if n.natAbs < Nat.pow 10 21 then .int n else .double (Double.ofInt n)) ∧
        ((Double.ofInt n).isFinite = true ↔ |(n : Rat)| < 2 ^ 1024 - 2 ^ 970) ∧
        ((Double.ofInt n).isFinite = true ∨ Double.ofInt n = .infinity (decide (n < 0)))) ∧
      ∀ x, ∃ w, ReadsBack c (.double x) w ∧
        (w = .double x ∨ ∃ n : Int, w = .int n ∧ x.isFinite = true ∧ x.value = n) :=
  ⟨readsBack_bool c, fun n => ⟨readsBack_int c n, Double.ofInt_range n⟩, readsBack_double c⟩

/-- A text with two minus signs, of which the second is no operator. -/
example : (Double.ofRat (-3 / 20000000)).cellText = "-1.5e-7" := by decide +kernel

end Worksheet
