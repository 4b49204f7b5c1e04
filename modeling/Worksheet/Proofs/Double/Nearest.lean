-- How near the double of an integer is. An integer of 53 bits is its own
-- double. Past that the unit is a whole number, so the double is whole too, and
-- it is larger than the integer by half a unit at most.
import Worksheet.Proofs.Double.Integer

namespace Worksheet.Double

/-! ## Rounded natural numbers -/

/-- A natural number is its own rounding unless the unit is more than one. -/
theorem magnitude_natCast_cases {k m : Nat} {f : Int} {negative : Bool} {h : Canonical m f}
    (hk : 0 < k) (hround : ofMagnitude negative k = .finite negative m f h) :
    magnitude m f = k ∨ ∃ e : Nat, 0 < e ∧ (2 : Rat) ^ (e + 52) ≤ k ∧
      magnitude m f = magnitude (nearestEven (k / 2 ^ e)) e := by
  have hpos : (0 : Rat) < k := Nat.cast_pos.mpr hk
  have hunit := isUnit_unitExponent hpos
  have hunits := magnitude_of_ofMagnitude hpos hunit hround
  generalize unitExponent (k : Rat) = u at *
  rcases le_or_gt u 0 with hu | hu
  · left
    obtain ⟨d, rfl⟩ : ∃ d : Nat, u = -d := ⟨u.natAbs, by omega⟩
    have hwhole : (k : Rat) / 2 ^ (-(d : Int)) = (k * 2 ^ d : Nat) := by
      rw [zpow_neg, zpow_natCast, div_inv_eq_mul]
      push_cast
      rfl
    rw [hunits, hwhole, nearestEven_natCast, magnitude, ← hwhole,
      div_mul_cancel₀ _ (two_zpow_pos _).ne']
  · right
    obtain ⟨e, rfl⟩ : ∃ e : Nat, u = e := ⟨u.toNat, by omega⟩
    have hfull := hunit.full.resolve_left (by omega)
    refine ⟨e, by omega, ?_, hunits⟩
    exact_mod_cast hfull

/-- The rounding of a natural number is one. -/
theorem exists_natCast_of_ofMagnitude {k m : Nat} {f : Int} {negative : Bool} {h : Canonical m f}
    (hk : 0 < k) (hround : ofMagnitude negative k = .finite negative m f h) :
    ∃ j : Nat, magnitude m f = j := by
  rcases magnitude_natCast_cases hk hround with hself | ⟨e, -, -, hunits⟩
  · exact ⟨k, hself⟩
  · refine ⟨nearestEven ((k : Rat) / 2 ^ e) * 2 ^ e, ?_⟩
    rw [hunits, magnitude]
    push_cast
    rfl

/-- The rounding of a natural number is larger by one part in 2^53 at most. -/
theorem magnitude_natCast_le {k m : Nat} {f : Int} {negative : Bool} {h : Canonical m f}
    (hk : 0 < k) (hround : ofMagnitude negative k = .finite negative m f h) :
    magnitude m f ≤ (1 + 2 ^ (-53 : Int)) * k := by
  have hpos : (0 : Rat) < k := Nat.cast_pos.mpr hk
  rcases magnitude_natCast_cases hk hround with hself | ⟨e, -, hfull, hunits⟩
  · rw [hself]
    exact le_mul_of_one_le_left hpos.le (le_add_of_nonneg_right (two_zpow_pos _).le)
  · have hunit : (0 : Rat) < 2 ^ e := by positivity
    have hhalf := nearestEven_le_add_half (div_pos hpos hunit).le
    have hsmall : 1 / 2 * (2 : Rat) ^ e ≤ 2 ^ (-53 : Int) * k := by
      calc 1 / 2 * (2 : Rat) ^ e = 2 ^ (-53 : Int) * 2 ^ (e + 52) := by
            rw [pow_add]
            norm_num
            ring
        _ ≤ 2 ^ (-53 : Int) * k := mul_le_mul_of_nonneg_left hfull (two_zpow_pos _).le
    calc magnitude m f = nearestEven ((k : Rat) / 2 ^ e) * 2 ^ e := by
          rw [hunits, magnitude, zpow_natCast]
      _ ≤ ((k : Rat) / 2 ^ e + 1 / 2) * 2 ^ e := mul_le_mul_of_nonneg_right hhalf hunit.le
      _ = k + 1 / 2 * 2 ^ e := by rw [add_mul, div_mul_cancel₀ _ hunit.ne']
      _ ≤ (1 + 2 ^ (-53 : Int)) * k := by
          rw [add_mul, one_mul]
          exact add_le_add_right hsmall _

/-! ## The doubles of integers -/

variable {n : Int}

/-- A finite rounding has the sign of the integer and the rounded magnitude. -/
theorem exists_magnitude_of_ofInt (hfinite : (ofInt n).isFinite = true) :
    ∃ m f h, ofMagnitude (decide (n < 0)) n.natAbs = .finite (decide (n < 0)) m f h ∧
      (ofInt n).value = if n < 0 then -(magnitude m f) else magnitude m f := by
  rcases ofMagnitude_cases (decide (n < 0)) (n.natAbs : Rat) with ⟨m, f, h, hround⟩ | hround
  · refine ⟨m, f, h, hround, ?_⟩
    rw [ofInt_eq, hround, value]
    simp only [decide_eq_true_eq]
  · rw [ofInt_eq, hround] at hfinite
    cases hfinite

theorem abs_value_ofInt (hfinite : (ofInt n).isFinite = true) :
    ∃ m f h, ofMagnitude (decide (n < 0)) n.natAbs = .finite (decide (n < 0)) m f h ∧
      |(ofInt n).value| = magnitude m f := by
  obtain ⟨m, f, h, hround, hvalue⟩ := exists_magnitude_of_ofInt hfinite
  refine ⟨m, f, h, hround, ?_⟩
  have habs : |magnitude m f| = magnitude m f := abs_of_nonneg (magnitude_nonneg m f)
  rw [hvalue]
  split_ifs
  · rw [abs_neg, habs]
  · exact habs

theorem value_ofInt_zero : (ofInt 0).value = 0 := by
  have hzero : ofInt 0 = zero false := rfl
  rw [hzero]
  simp [zero, value, magnitude]

theorem value_ofInt_nonpos (hn : n ≤ 0) : (ofInt n).value ≤ 0 := by
  rcases hn.eq_or_lt with rfl | hneg
  · exact value_ofInt_zero.le
  · cases hfinite : (ofInt n).isFinite with
    | true =>
      obtain ⟨m, f, h, -, hvalue⟩ := exists_magnitude_of_ofInt hfinite
      rw [hvalue, if_pos hneg]
      exact neg_nonpos.mpr (magnitude_nonneg m f)
    | false =>
      rw [((ofInt_range n).2.resolve_left (by simp [hfinite]))]
      exact le_refl _

/-- The double of an integer is whole. -/
theorem isIntegral_ofInt (hfinite : (ofInt n).isFinite = true) : (ofInt n).isIntegral = true := by
  rcases eq_or_ne n 0 with rfl | hn
  · exact isIntegral_of_isZero rfl
  · obtain ⟨m, f, h, hround, hvalue⟩ := exists_magnitude_of_ofInt hfinite
    obtain ⟨j, hj⟩ := exists_natCast_of_ofMagnitude (Int.natAbs_pos.mpr hn) hround
    have hden : (ofInt n).value.den = 1 := by
      rw [hvalue, hj]
      split_ifs
      · rw [Rat.neg_den, Rat.den_natCast]
      · exact Rat.den_natCast j
    rw [ofInt_eq, hround] at hden ⊢
    exact beq_iff_eq.mpr hden

theorem abs_lt_of_small (h : n.natAbs < 2 ^ 53) : |(n : Rat)| < 2 ^ 53 := by
  rw [← Int.cast_abs, Int.abs_eq_natAbs]
  exact_mod_cast h

/-- An integer of 53 bits is in the range of doubles. -/
theorem isFinite_ofInt_of_small (h : n.natAbs < 2 ^ 53) : (ofInt n).isFinite = true := by
  rw [(ofInt_range n).1]
  calc |(n : Rat)| < 2 ^ 53 := abs_lt_of_small h
    _ ≤ 2 ^ 970 := pow_le_pow_right₀ (by norm_num) (by norm_num)
    _ ≤ (2 ^ 54 - 1) * 2 ^ 970 := le_mul_of_one_le_left (by positivity) (by norm_num)
    _ = 2 ^ 1024 - 2 ^ 970 := by rw [sub_mul, one_mul, ← pow_add]

/-- It is its own double. -/
theorem value_ofInt_of_small (h : n.natAbs < 2 ^ 53) : (ofInt n).value = n := by
  have habs : ((n.natAbs : Nat) : Rat) = |(n : Rat)| := by
    rw [Nat.cast_natAbs, Int.cast_abs]
  have hfinite := isFinite_ofInt_of_small h
  rcases eq_or_ne n 0 with rfl | hn
  · exact value_ofInt_zero
  · obtain ⟨m, f, hc, hround, hvalue⟩ := exists_magnitude_of_ofInt hfinite
    rcases magnitude_natCast_cases (Int.natAbs_pos.mpr hn) hround with hself | ⟨e, he, hfull, -⟩
    · rw [hvalue, hself, habs]
      split_ifs with hneg
      · rw [abs_of_neg (by exact_mod_cast hneg), neg_neg]
      · exact abs_of_nonneg (by exact_mod_cast not_lt.mp hneg)
    · have hlarge : (2 : Rat) ^ 53 ≤ 2 ^ (e + 52) := pow_le_pow_right₀ (by norm_num) (by omega)
      exact absurd ((abs_lt_of_small h).trans_le hlarge) (not_lt.mpr (habs ▸ hfull))

theorem abs_value_ofInt_le (hfinite : (ofInt n).isFinite = true) :
    |(ofInt n).value| ≤ (1 + 2 ^ (-53 : Int)) * |(n : Rat)| := by
  rcases eq_or_ne n 0 with rfl | hn
  · rw [value_ofInt_zero]
    simp
  · obtain ⟨m, f, h, hround, habs⟩ := abs_value_ofInt hfinite
    have hle := magnitude_natCast_le (Int.natAbs_pos.mpr hn) hround
    rw [Nat.cast_natAbs, Int.cast_abs] at hle
    rwa [habs]

theorem one_le_abs_value_ofInt (hn : n ≠ 0) (hfinite : (ofInt n).isFinite = true) :
    1 ≤ |(ofInt n).value| := by
  obtain ⟨m, f, h, hround, habs⟩ := abs_value_ofInt hfinite
  have hle : (1 : Rat) ≤ n.natAbs := by exact_mod_cast Int.natAbs_pos.mpr hn
  rw [habs]
  exact one_le_magnitude_of_ofMagnitude hle hround

end Worksheet.Double
