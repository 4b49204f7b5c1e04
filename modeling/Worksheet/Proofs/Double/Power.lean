-- When the power of two doubles has no value. It has one where the base or the
-- exponent is not finite. Zero has no negative power, and a finite number below
-- zero has no power to a fraction; any other finite power may only be too large.
import Worksheet.Double.Power
import Worksheet.Proofs.Double.Integer

namespace Worksheet.Double

/-- Where the base or the exponent is not finite there is a power. -/
theorem exists_pow {x y : Double} (h : x.isFinite = false ∨ y.isFinite = false) :
    ∃ r, x.pow y = .ok r := by
  unfold pow
  split
  · exact ⟨one, rfl⟩
  · cases y with
    | nan => cases x <;> exact ⟨_, rfl⟩
    | infinity t =>
      cases x with
      | nan => exact ⟨.nan, rfl⟩
      | infinity s =>
        dsimp only
        split <;> exact ⟨_, rfl⟩
      | finite s m e hc =>
        dsimp only
        split <;> exact ⟨_, rfl⟩
    | finite t n f k =>
      cases x with
      | nan => exact ⟨.nan, rfl⟩
      | infinity s =>
        dsimp only
        split <;> exact ⟨_, rfl⟩
      | finite s m e hc => simp [isFinite] at h

/-- A finite power is that of zero or of another number. -/
theorem pow_of_finite {x y : Double} (hx : x.isFinite = true) (hy : y.isFinite = true)
    (hzero : y.isZero = false) :
    x.pow y =
      if x.isZero then
        if y.isNegative then .error .zeroToNegative else .ok (zero (x.isNegative && y.isOdd))
      else finitePow x y := by
  unfold pow
  rw [if_neg (by simp [hzero])]
  cases x with
  | nan => cases hx
  | infinity s => cases hx
  | finite s m e hc =>
    cases y with
    | nan => cases hy
    | infinity t => cases hy
    | finite t n f k => rfl

theorem positivePow_cases (x y : Double) :
    (∃ r, positivePow x y = .ok r) ∨ positivePow x y = .error .overflow := by
  unfold positivePow
  split
  · exact Or.inl ⟨one, rfl⟩
  · dsimp only
    split
    · exact Or.inr rfl
    · exact Or.inl ⟨_, rfl⟩

/-- A negative number has no power to a fraction, too large or not. -/
theorem finitePow_of_fraction {x y : Double} (hx : x.isNegative = true)
    (hy : y.isIntegral = false) :
    finitePow x y = .error .overflow ∨ finitePow x y = .error .notReal := by
  unfold finitePow
  rw [if_neg (by simp [hx]), if_neg (by simp [hy])]
  rcases positivePow_cases x.abs y with ⟨r, hr⟩ | hr
  · rw [hr]
    exact Or.inr rfl
  · rw [hr]
    exact Or.inl rfl

/-- Any other power of a number is one, or too large. -/
theorem finitePow_cases {x y : Double} (h : x.isNegative = false ∨ y.isIntegral = true) :
    (∃ r, finitePow x y = .ok r) ∨ finitePow x y = .error .overflow := by
  unfold finitePow
  split
  · exact positivePow_cases x y
  · rename_i hx
    rw [if_pos (h.resolve_left (by simpa using hx))]
    rcases positivePow_cases x.abs y with ⟨r, hr⟩ | hr
    · rw [hr]
      exact Or.inl ⟨_, rfl⟩
    · rw [hr]
      exact Or.inr rfl

theorem isInfinite_one : one.isInfinite = false := by decide +kernel

theorem isInfinite_of_positivePow {x y r : Double} (h : positivePow x y = .ok r) :
    r.isInfinite = false := by
  unfold positivePow at h
  split at h
  · cases h
    exact isInfinite_one
  · dsimp only at h
    split at h
    · cases h
    · rename_i hfinite
      cases h
      exact Bool.not_eq_true _ ▸ hfinite

/-- The power of finite numbers is not infinite: it overflows instead. -/
theorem isInfinite_of_pow {x y r : Double} (hx : x.isFinite = true) (hy : y.isFinite = true)
    (h : x.pow y = .ok r) : r.isInfinite = false := by
  cases hzero : y.isZero with
  | true =>
    have hone : x.pow y = .ok one := if_pos hzero
    rw [hone] at h
    cases h
    exact isInfinite_one
  | false =>
    rw [pow_of_finite hx hy hzero] at h
    split at h
    · split at h
      · cases h
      · cases h
        rfl
    · unfold finitePow at h
      split at h
      · exact isInfinite_of_positivePow h
      · split at h
        · cases hpow : positivePow x.abs y with
          | error f =>
            rw [hpow] at h
            cases h
          | ok p =>
            rw [hpow] at h
            cases h
            have hp := isInfinite_of_positivePow hpow
            split
            · cases p with
              | infinity s => cases hp
              | nan => rfl
              | finite s m e hc => rfl
            · exact hp
        · split at h
          · cases h
          · cases h

/-- The finite power of a number below zero to a fraction. -/
theorem pow_of_fraction {x y : Double} (hx : x.lt (zero false) = true)
    (hy : y.isIntegral = false) (hfx : x.isFinite = true) (hfy : y.isFinite = true) :
    x.pow y = .error .overflow ∨ x.pow y = .error .notReal := by
  rw [lt_zero, Bool.and_eq_true, Bool.not_eq_true'] at hx
  have hzero : y.isZero = false :=
    Bool.eq_false_iff.mpr fun h => Bool.eq_false_iff.mp hy (isIntegral_of_isZero h)
  rw [pow_of_finite hfx hfy hzero, if_neg (by simp [hx.2])]
  exact finitePow_of_fraction hx.1 hy

/-- The power of two doubles, or the reason why there is none. -/
theorem pow_cases (x y : Double) :
    (∃ r, x.pow y = .ok r) ∨ x.pow y = .error .overflow ∨
      (x.pow y = .error .zeroToNegative ∧ x.isZero = true ∧ y.lt (zero false) = true) ∨
      x.pow y = .error .notReal ∧ x.lt (zero false) = true ∧ y.isIntegral = false := by
  by_cases hfinite : x.isFinite = true ∧ y.isFinite = true ∧ y.isZero = false
  · obtain ⟨hfx, hfy, hy⟩ := hfinite
    rw [pow_of_finite hfx hfy hy, lt_zero, lt_zero]
    split
    · rename_i hx
      split
      · rename_i hneg
        exact Or.inr (Or.inr (Or.inl ⟨rfl, hx, by rw [hneg, hy]; rfl⟩))
      · exact Or.inl ⟨_, rfl⟩
    · rename_i hx
      by_cases hfraction : x.isNegative = true ∧ y.isIntegral = false
      · obtain ⟨hneg, hint⟩ := hfraction
        rcases finitePow_of_fraction hneg hint with h | h
        · exact Or.inr (Or.inl h)
        · exact Or.inr (Or.inr (Or.inr ⟨h, by simp [hneg, hx], hint⟩))
      · have hwhole : x.isNegative = false ∨ y.isIntegral = true := by
          rw [not_and_or, Bool.not_eq_true, Bool.not_eq_false] at hfraction
          exact hfraction
        rcases finitePow_cases hwhole with h | h
        · exact Or.inl h
        · exact Or.inr (Or.inl h)
  · left
    cases hy : y.isZero with
    | true => exact ⟨one, if_pos hy⟩
    | false =>
      have hinfinite : ¬ (x.isFinite = true ∧ y.isFinite = true) := fun h =>
        hfinite ⟨h.1, h.2, hy⟩
      rw [not_and_or, Bool.not_eq_true, Bool.not_eq_true] at hinfinite
      exact exists_pow hinfinite

end Worksheet.Double
