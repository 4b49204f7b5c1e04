-- Integers as doubles. An integer is rounded to a double of its sign, and only
-- zero to a zero. Past the range of doubles the rounding is an infinity, and
-- the integer has no double.
import Mathlib.Tactic.Linarith
import Worksheet.Double.Arithmetic
import Worksheet.Proofs.Double.Rounding

namespace Worksheet.Double

/-! ## The rounding of an integer -/

theorem ofInt_eq (n : Int) : ofInt n = ofMagnitude (decide (n < 0)) n.natAbs := by
  unfold ofInt ofRat
  rw [Rat.num_intCast]
  split_ifs with hneg
  · have habs : ((n.natAbs : Nat) : Rat) = -n := by
      rw [Nat.cast_natAbs, abs_of_neg hneg]
      push_cast
      rfl
    rw [decide_eq_true hneg, habs]
  · have habs : ((n.natAbs : Nat) : Rat) = n := by
      rw [Nat.cast_natAbs, abs_of_nonneg (not_lt.mp hneg)]
    rw [decide_eq_false hneg, habs]

/-- An integer past the range of doubles is rounded to the infinity of its
sign. -/
theorem ofInt_range (n : Int) :
    ((ofInt n).isFinite = true ↔ |(n : Rat)| < 2 ^ 1024 - 2 ^ 970) ∧
      ((ofInt n).isFinite = true ∨ ofInt n = .infinity (decide (n < 0))) := by
  have habs : ((n.natAbs : Nat) : Rat) = |(n : Rat)| := by
    rw [Nat.cast_natAbs]
    push_cast
    rfl
  rw [ofInt_eq, ← habs]
  refine ⟨isFinite_ofMagnitude _ _, ?_⟩
  rcases ofMagnitude_cases (decide (n < 0)) (n.natAbs : Rat) with ⟨m, e, hc, hround⟩ | hround
  · rw [hround]
    exact Or.inl rfl
  · exact Or.inr hround

/-! ## Zero and sign -/

/-- What is no less than one is not rounded below one. -/
theorem one_le_magnitude_of_ofMagnitude {q : Rat} {m : Nat} {e : Int} {negative : Bool}
    {h : Canonical m e} (hq : 1 ≤ q) (hround : ofMagnitude negative q = .finite negative m e h) :
    1 ≤ magnitude m e := by
  have hone : magnitude 4503599627370496 (-52) = 1 := by
    unfold magnitude
    norm_num
  rw [← hone] at hq ⊢
  exact magnitude_le_of_ofMagnitude (by decide) hq hround

theorem isZero_ofInt (n : Int) : (ofInt n).isZero = decide (n = 0) := by
  by_cases hn : n = 0
  · subst hn
    rfl
  · rw [decide_eq_false hn, ofInt_eq]
    rcases ofMagnitude_cases (decide (n < 0)) (n.natAbs : Rat) with ⟨m, e, hc, hround⟩ | hround
    · have hle : (1 : Rat) ≤ n.natAbs := by exact_mod_cast Int.natAbs_pos.mpr hn
      have hlarge := one_le_magnitude_of_ofMagnitude hle hround
      have hm : m ≠ 0 := by
        rintro rfl
        rw [magnitude, Nat.cast_zero, zero_mul] at hlarge
        exact absurd hlarge (by norm_num)
      rw [hround]
      exact beq_eq_false_iff_ne.mpr hm
    · rw [hround]
      rfl

theorem isIntegral_of_isZero {y : Double} (h : y.isZero = true) : y.isIntegral = true := by
  cases y with
  | nan => cases h
  | infinity s => cases h
  | finite s m e hc =>
    obtain rfl : m = 0 := by simpa [isZero] using h
    cases s <;> simp [isIntegral, value, magnitude]

theorem place?_zero (negative : Bool) : (zero negative).place? = some (0, 0) := by
  cases negative <;> simp [zero, place?, value, magnitude]

/-- Side by side among the finite numbers, the values decide. -/
theorem comparePlaces_eq_lt_iff (p q : Rat) : comparePlaces (0, p) (0, q) = .lt ↔ p < q := by
  unfold comparePlaces
  rw [if_neg (lt_irrefl _), if_neg (lt_irrefl _)]
  split_ifs with hlt hgt
  · exact iff_of_true rfl hlt
  · exact iff_of_false nofun hlt
  · exact iff_of_false nofun hlt

/-- Below zero are the negative numbers except zero. -/
theorem lt_zero (x : Double) : x.lt (zero false) = (x.isNegative && !x.isZero) := by
  rw [Bool.eq_iff_iff, lt, compare?, place?_zero]
  cases x with
  | nan => exact iff_of_false nofun nofun
  | infinity s => cases s <;> decide
  | finite s m e h =>
    have hplace : (finite s m e h).place? = some (0, (finite s m e h).value) := rfl
    have hvalue : (finite s m e h).value < 0 ↔ s = true ∧ m ≠ 0 := by
      unfold value
      dsimp only
      cases s with
      | false => simpa using magnitude_nonneg m e
      | true =>
        rcases Nat.eq_zero_or_pos m with rfl | hm
        · simp [magnitude]
        · simpa [hm.ne'] using magnitude_pos hm e
    rw [hplace]
    simp [comparePlaces_eq_lt_iff, hvalue, isNegative, isZero]

theorem isNegative_ofInt (n : Int) : (ofInt n).isNegative = decide (n < 0) := by
  rw [ofInt_eq]
  rcases ofMagnitude_cases (decide (n < 0)) (n.natAbs : Rat) with ⟨m, e, hc, hround⟩ | hround
  · rw [hround]
    rfl
  · rw [hround]
    rfl

theorem lt_zero_ofInt (n : Int) : (ofInt n).lt (zero false) = decide (n < 0) := by
  rw [lt_zero, isNegative_ofInt, isZero_ofInt]
  by_cases hn : n < 0
  · simp [hn, hn.ne]
  · simp [hn]

end Worksheet.Double
