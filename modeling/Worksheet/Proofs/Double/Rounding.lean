-- Rounding to doubles. The unit of a magnitude leaves 53 bits before the
-- point, or is the least there is, and no other unit does. So a double is its
-- own rounding, and a magnitude that is no less than a double does not become
-- less by rounding. The range ends half a unit past the largest double.
import Worksheet.Double.Decimal
import Mathlib.Algebra.Order.Floor.Ring
import Mathlib.Data.Rat.Floor
import Mathlib.Tactic.FieldSimp
import Mathlib.Tactic.Linarith
import Mathlib.Tactic.NormNum
import Mathlib.Tactic.Positivity
import Mathlib.Tactic.Ring

namespace Worksheet.Double

/-! ## Powers of two -/

theorem two_zpow_pos (e : Int) : (0 : Rat) < 2 ^ e := zpow_pos (by norm_num) e

theorem two_zpow_le {a b : Int} (h : a ≤ b) : (2 : Rat) ^ a ≤ 2 ^ b :=
  zpow_le_zpow_right₀ (by norm_num) h

theorem lt_of_two_zpow_lt {a b : Int} (h : (2 : Rat) ^ a < 2 ^ b) : a < b :=
  (zpow_lt_zpow_iff_right₀ (by norm_num)).mp h

theorem two_zpow_add (a b : Int) : (2 : Rat) ^ (a + b) = 2 ^ a * 2 ^ b :=
  zpow_add₀ (by norm_num) a b

theorem magnitude_pos {m : Nat} (h : 0 < m) (e : Int) : 0 < magnitude m e := by
  have hm : (0 : Rat) < m := Nat.cast_pos.mpr h
  exact mul_pos hm (two_zpow_pos e)

theorem magnitude_nonneg (m : Nat) (e : Int) : 0 ≤ magnitude m e :=
  mul_nonneg (Nat.cast_nonneg m) (two_zpow_pos e).le

theorem magnitude_le {m n : Nat} (h : m ≤ n) (e : Int) : magnitude m e ≤ magnitude n e :=
  mul_le_mul_of_nonneg_right (Nat.cast_le.mpr h) (two_zpow_pos e).le

/-- A power of two, in a unit. -/
theorem magnitude_two_pow (k : Nat) (e : Int) : magnitude (2 ^ k) e = 2 ^ (e + k) := by
  unfold magnitude
  rw [two_zpow_add]
  push_cast
  rw [zpow_natCast, mul_comm]

/-! ## The unit -/

/-- The unit leaves 53 bits before the point of the magnitude, or is the least
unit and leaves fewer. -/
structure IsUnit (q : Rat) (e : Int) : Prop where
  least : -1074 ≤ e
  lt : q < 2 ^ (e + 53)
  full : e = -1074 ∨ 2 ^ (e + 52) ≤ q

theorem IsUnit.le {q r : Rat} {e f : Int} (h : IsUnit q e) (h' : IsUnit r f) (hqr : q ≤ r) :
    e ≤ f := by
  rcases h.full with rfl | hfull
  · exact h'.least
  · have hlt : (2 : Rat) ^ (e + 52) < 2 ^ (f + 53) := hfull.trans_lt (hqr.trans_lt h'.lt)
    have := lt_of_two_zpow_lt hlt
    omega

theorem IsUnit.unique {q : Rat} {e f : Int} (h : IsUnit q e) (h' : IsUnit q f) : e = f :=
  Int.le_antisymm (h.le h' (le_refl q)) (h'.le h (le_refl q))

/-- The difference of the lengths in bits tells a quotient up to a factor of
two. -/
theorem quotient_between {n d : Nat} (hn : n ≠ 0) (hd : d ≠ 0) :
    (2 : Rat) ^ ((n.log2 : Int) - d.log2 - 1) ≤ (n : Rat) / d ∧
      (n : Rat) / d < 2 ^ ((n.log2 : Int) - d.log2 + 1) := by
  have hpos : (0 : Rat) < d := Nat.cast_pos.mpr (Nat.pos_of_ne_zero hd)
  have bounds : ∀ {k : Nat}, k ≠ 0 →
      (2 : Rat) ^ (k.log2 : Int) ≤ k ∧ (k : Rat) < 2 ^ ((k.log2 : Int) + 1) := by
    intro k hk
    constructor
    · exact_mod_cast Nat.log2_self_le hk
    · exact_mod_cast Nat.lt_log2_self
  obtain ⟨hnlo, hnhi⟩ := bounds hn
  obtain ⟨hdlo, hdhi⟩ := bounds hd
  constructor
  · rw [le_div_iff₀ hpos]
    calc (2 : Rat) ^ ((n.log2 : Int) - d.log2 - 1) * d
        ≤ 2 ^ ((n.log2 : Int) - d.log2 - 1) * 2 ^ ((d.log2 : Int) + 1) :=
          mul_le_mul_of_nonneg_left hdhi.le (two_zpow_pos _).le
      _ = 2 ^ (n.log2 : Int) := by
          rw [← two_zpow_add]
          congr 1
          omega
      _ ≤ n := hnlo
  · rw [div_lt_iff₀ hpos]
    calc (n : Rat) < 2 ^ ((n.log2 : Int) + 1) := hnhi
      _ = 2 ^ ((n.log2 : Int) - d.log2 + 1) * 2 ^ (d.log2 : Int) := by
          rw [← two_zpow_add]
          congr 1
          omega
      _ ≤ 2 ^ ((n.log2 : Int) - d.log2 + 1) * d :=
          mul_le_mul_of_nonneg_left hdlo (two_zpow_pos _).le

theorem isUnit_unitExponent {q : Rat} (hq : 0 < q) : IsUnit q (unitExponent q) := by
  have hnum : q.num.natAbs ≠ 0 := Int.natAbs_ne_zero.mpr (Rat.num_pos.mpr hq).ne'
  obtain ⟨hlo, hhi⟩ := quotient_between hnum q.den_ne_zero
  have habs : ((q.num.natAbs : Nat) : Rat) = (q.num : Rat) := by
    rw [← Int.cast_natCast, Int.natAbs_of_nonneg (Rat.num_pos.mpr hq).le]
  rw [habs, Rat.num_div_den] at hlo hhi
  unfold unitExponent
  dsimp only
  generalize (q.num.natAbs.log2 : Int) - (q.den.log2 : Int) = k at *
  -- the unit before it is bounded below
  have hunit : ∀ e : Int, q < 2 ^ (e + 53) → 2 ^ (e + 52) ≤ q → IsUnit q (max (-1074) e) := by
    intro e hlt hle
    refine ⟨le_max_left _ _, hlt.trans_le (two_zpow_le (by omega)), ?_⟩
    rcases le_total e (-1074) with he | he
    · exact Or.inl (max_eq_left he)
    · exact Or.inr (by rwa [max_eq_right he])
  split
  · rename_i hlt
    apply hunit
    · rwa [show k - 53 + 53 = k by omega]
    · rwa [show k - 53 + 52 = k - 1 by omega]
  · rename_i hle
    apply hunit
    · rwa [show k - 52 + 53 = k + 1 by omega]
    · rw [show k - 52 + 52 = k by omega]
      exact not_lt.mp hle

theorem unitExponent_eq {q : Rat} {e : Int} (hq : 0 < q) (h : IsUnit q e) : unitExponent q = e :=
  (isUnit_unitExponent hq).unique h

/-- The unit of a double is its own. -/
theorem isUnit_magnitude {m : Nat} {e : Int} (h : Canonical m e) : IsUnit (magnitude m e) e := by
  obtain ⟨hlt, hleast, -, hfull⟩ := h
  refine ⟨hleast, ?_, ?_⟩
  · have hm : (m : Rat) < (2 ^ 53 : Nat) := Nat.cast_lt.mpr hlt
    exact (mul_lt_mul_of_pos_right hm (two_zpow_pos e)).trans_eq (magnitude_two_pow 53 e)
  · rcases hfull with hm | he
    · refine Or.inr ?_
      exact (magnitude_two_pow 52 e).symm.le.trans (magnitude_le hm e)
    · exact Or.inl he

/-! ## The nearest natural number -/

theorem nearestEven_natCast (n : Nat) : nearestEven (n : Rat) = n := by
  have hfloor : (n : Rat).floor.toNat = n := by
    rw [← Rat.intCast_natCast, Rat.floor_intCast, Int.toNat_natCast]
  unfold nearestEven
  dsimp only
  rw [hfloor, sub_self, if_pos (by norm_num)]

/-- A natural number below does not come to lie above. -/
theorem le_nearestEven {n : Nat} {q : Rat} (h : (n : Rat) ≤ q) : n ≤ nearestEven q := by
  have hfloor : n ≤ q.floor.toNat := by
    have : (n : Int) ≤ q.floor := Rat.le_floor_iff.mpr (by exact_mod_cast h)
    omega
  unfold nearestEven
  dsimp only
  split_ifs <;> omega

/-- Rounding adds one half at most. -/
theorem nearestEven_le_add_half {q : Rat} (h0 : 0 ≤ q) : (nearestEven q : Rat) ≤ q + 1 / 2 := by
  have hfloor : ((q.floor.toNat : Nat) : Rat) ≤ q := by
    have hnonneg : 0 ≤ q.floor := Rat.le_floor_iff.mpr (by exact_mod_cast h0)
    have hcast : ((q.floor.toNat : Nat) : Rat) = (q.floor : Rat) := by
      exact_mod_cast Int.toNat_of_nonneg hnonneg
    rw [hcast]
    exact Rat.floor_le q
  unfold nearestEven
  dsimp only
  split_ifs with hbelow habove
  · linarith
  · push_cast
    linarith
  · linarith
  · push_cast
    linarith

theorem nearestEven_eq_zero {q : Rat} (h0 : 0 ≤ q) (h : q < 1 / 2) : nearestEven q = 0 := by
  have hfloor : q.floor = 0 := Int.floor_eq_zero_iff.mpr ⟨h0, h.trans (by norm_num)⟩
  unfold nearestEven
  dsimp only
  rw [hfloor]
  simp only [Int.toNat_zero, Nat.cast_zero, sub_zero]
  rw [if_pos h]

/-! ## Rounding in the unit -/

theorem ofMagnitude_of_isUnit {q : Rat} {e : Int} (hq : 0 < q) (h : IsUnit q e) (negative : Bool) :
    ofMagnitude negative q =
      if nearestEven (q / 2 ^ e) = 9007199254740992 then
        assemble negative 4503599627370496 (e + 1)
      else assemble negative (nearestEven (q / 2 ^ e)) e := by
  have hnum : ¬ q.num ≤ 0 := not_le.mpr (Rat.num_pos.mpr hq)
  unfold ofMagnitude
  rw [if_neg hnum]
  dsimp only
  rw [unitExponent_eq hq h]

theorem ofMagnitude_of_nonpos {q : Rat} (hq : q ≤ 0) (negative : Bool) :
    ofMagnitude negative q = zero negative := if_pos (Rat.num_nonpos.mpr hq)

theorem assemble_of_canonical {m : Nat} {e : Int} (h : Canonical m e) (negative : Bool) :
    assemble negative m e = .finite negative m e h := dif_pos h

theorem assemble_cases (negative : Bool) (m : Nat) (e : Int) :
    (∃ h, assemble negative m e = .finite negative m e h) ∨
      assemble negative m e = .infinity negative := by
  by_cases h : Canonical m e
  · exact Or.inl ⟨h, dif_pos h⟩
  · exact Or.inr (dif_neg h)

/-- A rounded magnitude is finite or infinite, with its sign. -/
theorem ofMagnitude_cases (negative : Bool) (q : Rat) :
    (∃ m e h, ofMagnitude negative q = .finite negative m e h) ∨
      ofMagnitude negative q = .infinity negative := by
  rcases le_or_gt q 0 with hq | hq
  · exact Or.inl ⟨0, -1074, by decide, ofMagnitude_of_nonpos hq negative⟩
  · rw [ofMagnitude_of_isUnit hq (isUnit_unitExponent hq)]
    split
    · exact (assemble_cases _ _ _).imp_left fun h => ⟨_, _, h⟩
    · exact (assemble_cases _ _ _).imp_left fun h => ⟨_, _, h⟩

/-- A double is its own rounding. -/
theorem ofMagnitude_magnitude {m : Nat} {e : Int} (h : Canonical m e) (negative : Bool) :
    ofMagnitude negative (magnitude m e) = .finite negative m e h := by
  rcases Nat.eq_zero_or_pos m with rfl | hm
  · have he : e = -1074 := h.2.2.2.resolve_left (by omega)
    subst he
    exact ofMagnitude_of_nonpos (by simp [magnitude]) negative
  · have hself : nearestEven (magnitude m e / 2 ^ e) = m := by
      rw [magnitude, mul_div_cancel_right₀ _ (two_zpow_pos e).ne', nearestEven_natCast]
    have hlt : m ≠ 9007199254740992 := h.1.ne
    rw [ofMagnitude_of_isUnit (magnitude_pos hm e) (isUnit_magnitude h), hself, if_neg hlt,
      assemble_of_canonical h]

/-- A finite rounding is a number of units, carried into the next unit or not. -/
theorem magnitude_of_ofMagnitude {q : Rat} {m : Nat} {e f : Int} {negative : Bool}
    {h : Canonical m f} (hq : 0 < q) (hunit : IsUnit q e)
    (hround : ofMagnitude negative q = .finite negative m f h) :
    magnitude m f = magnitude (nearestEven (q / 2 ^ e)) e := by
  rw [ofMagnitude_of_isUnit hq hunit] at hround
  split at hround
  · rename_i hfull
    obtain ⟨_, he⟩ | he := assemble_cases negative 4503599627370496 (e + 1)
    · rw [he, finite.injEq] at hround
      obtain ⟨-, rfl, rfl⟩ := hround
      calc magnitude (2 ^ 52) (e + 1) = magnitude (2 ^ 53) e := by
            rw [magnitude_two_pow, magnitude_two_pow]
            congr 1
            omega
        _ = magnitude (nearestEven (q / 2 ^ e)) e := congrArg (magnitude · e) hfull.symm
    · rw [he] at hround
      cases hround
  · obtain ⟨_, he⟩ | he := assemble_cases negative (nearestEven (q / 2 ^ e)) e
    · rw [he, finite.injEq] at hround
      obtain ⟨-, rfl, rfl⟩ := hround
      rfl
    · rw [he] at hround
      cases hround

/-! ## Rounding and order -/

/-- What is no less than a number of units does not become less. -/
theorem magnitude_le_of_isUnit {q : Rat} {k m : Nat} {e f : Int} {negative : Bool}
    {h : Canonical m f} (hq : 0 < q) (hunit : IsUnit q e) (hk : magnitude k e ≤ q)
    (hround : ofMagnitude negative q = .finite negative m f h) :
    magnitude k e ≤ magnitude m f := by
  have hle : k ≤ nearestEven (q / 2 ^ e) :=
    le_nearestEven ((le_div_iff₀ (two_zpow_pos e)).mpr hk)
  rw [magnitude_of_ofMagnitude hq hunit hround]
  exact magnitude_le hle e

/-- A magnitude that is no less than a double is rounded to no less than it. -/
theorem magnitude_le_of_ofMagnitude {q : Rat} {m n : Nat} {e f : Int} {negative : Bool}
    (hm : Canonical m e) (hle : magnitude m e ≤ q) {hn : Canonical n f}
    (hround : ofMagnitude negative q = .finite negative n f hn) :
    magnitude m e ≤ magnitude n f := by
  rcases le_or_gt q 0 with hq | hq
  · exact (hle.trans hq).trans (magnitude_nonneg n f)
  · have hunit := isUnit_unitExponent hq
    have heu := (isUnit_magnitude hm).le hunit hle
    generalize unitExponent q = u at *
    rcases heu.eq_or_lt with rfl | hlt
    · exact magnitude_le_of_isUnit hq hunit hle hround
    · -- in a larger unit the least full significand lies between the two
      have hfull : magnitude (2 ^ 52) u ≤ q := by
        rw [magnitude_two_pow]
        exact hunit.full.resolve_left (by have := hm.2.1; omega)
      have hbelow : magnitude m e ≤ magnitude (2 ^ 52) u := by
        rw [magnitude_two_pow]
        exact ((isUnit_magnitude hm).lt.le).trans (two_zpow_le (by omega))
      exact hbelow.trans (magnitude_le_of_isUnit hq hunit hfull hround)

/-! ## Past the range -/

theorem ofMagnitude_of_large {q : Rat} (h : 2 ^ (1024 : Int) ≤ q) (negative : Bool) :
    ofMagnitude negative q = .infinity negative := by
  have hq : 0 < q := (two_zpow_pos 1024).trans_le h
  have hunit := isUnit_unitExponent hq
  have hlarge : 972 ≤ unitExponent q := by
    have := lt_of_two_zpow_lt (h.trans_lt hunit.lt)
    omega
  have hout : ∀ m e, 972 ≤ e → assemble negative m e = .infinity negative :=
    fun m e he => dif_neg fun hc => by have := hc.2.2.1; omega
  rw [ofMagnitude_of_isUnit hq hunit]
  split
  · exact hout _ _ (by omega)
  · exact hout _ _ hlarge

theorem ofMagnitude_of_small {q : Rat} (h : q < 2 ^ (-1075 : Int)) (negative : Bool) :
    ofMagnitude negative q = zero negative := by
  rcases le_or_gt q 0 with hq | hq
  · exact ofMagnitude_of_nonpos hq negative
  · have hunit : IsUnit q (-1074) :=
      ⟨le_refl _, h.trans_le (two_zpow_le (by omega)), Or.inl rfl⟩
    have hhalf : q / 2 ^ (-1074 : Int) < 1 / 2 := by
      rw [div_lt_iff₀ (two_zpow_pos _)]
      calc q < 2 ^ (-1075 : Int) := h
        _ = 1 / 2 * 2 ^ (-1074 : Int) := by
            rw [show (-1075 : Int) = -1 + -1074 by norm_num, two_zpow_add]
            norm_num
    have hzero : nearestEven (q / 2 ^ (-1074 : Int)) = 0 :=
      nearestEven_eq_zero (div_nonneg hq.le (two_zpow_pos _).le) hhalf
    rw [ofMagnitude_of_isUnit hq hunit, hzero, if_neg (by decide)]
    exact assemble_of_canonical (by decide) negative

/-! ## The range -/

theorem nearestEven_le {q : Rat} {n : Nat} (h0 : 0 ≤ q) (h : q < n) : nearestEven q ≤ n := by
  have hnonneg : 0 ≤ q.floor := Rat.le_floor_iff.mpr (by exact_mod_cast h0)
  have hbelow : q.floor < n := Rat.floor_lt_iff.mpr (by exact_mod_cast h)
  unfold nearestEven
  dsimp only
  split_ifs <;> omega

/-- A magnitude goes up from an odd number at one half past it. -/
theorem nearestEven_of_odd {q : Rat} {n : Nat} (hodd : n % 2 = 1) (hle : (n : Rat) ≤ q)
    (hlt : q < n + 1) : nearestEven q = if q < n + 1 / 2 then n else n + 1 := by
  have hfloor : ⌊q⌋ = n := Int.floor_eq_iff.mpr ⟨by exact_mod_cast hle, by exact_mod_cast hlt⟩
  unfold nearestEven
  dsimp only
  rw [show q.floor = n from hfloor, Int.toNat_natCast]
  by_cases hhalf : q < n + 1 / 2
  · rw [if_pos hhalf, if_pos (by linarith)]
  · rw [if_neg hhalf, if_neg (by linarith)]
    split_ifs <;> omega

theorem isFinite_assemble (negative : Bool) (m : Nat) (e : Int) :
    (assemble negative m e).isFinite = true ↔ Canonical m e := by
  unfold assemble
  split_ifs with h
  · exact iff_of_true rfl h
  · exact iff_of_false Bool.false_ne_true h

/-- What is rounded to full significands of its unit is carried to the next
unit. The largest unit has no next one. -/
theorem isFinite_of_isUnit {q : Rat} {e : Int} (hq : 0 < q) (h : IsUnit q e) (negative : Bool) :
    (ofMagnitude negative q).isFinite = true ↔
      e ≤ 970 ∨ e = 971 ∧ nearestEven (q / 2 ^ e) ≠ 9007199254740992 := by
  have hpos := two_zpow_pos e
  have hle : nearestEven (q / 2 ^ e) ≤ 9007199254740992 := by
    apply nearestEven_le (div_nonneg hq.le hpos.le)
    rw [div_lt_iff₀ hpos]
    exact h.lt.trans_eq (magnitude_two_pow 53 e).symm
  have hfull : e = -1074 ∨ 4503599627370496 ≤ nearestEven (q / 2 ^ e) := by
    refine h.full.imp_right fun hfull => le_nearestEven ?_
    rw [le_div_iff₀ hpos]
    exact (magnitude_two_pow 52 e).trans_le hfull
  have hleast := h.least
  rw [ofMagnitude_of_isUnit hq h]
  split_ifs with hcarry
  · rw [isFinite_assemble]
    unfold Canonical
    omega
  · rw [isFinite_assemble]
    unfold Canonical
    omega

/-- The least magnitude that is rounded to an infinity lies half a unit past
the largest double. -/
theorem range_eq : (2 : Rat) ^ 1024 - 2 ^ 970 = (9007199254740991 + 1 / 2) * 2 ^ (971 : Int) := by
  have hpow : (2 : Rat) ^ 1024 = 2 ^ 54 * 2 ^ 970 := pow_add 2 54 970
  have hzpow : (2 : Rat) ^ (971 : Int) = 2 * 2 ^ 970 := by
    rw [← pow_succ']
    exact zpow_natCast 2 971
  rw [hpow, hzpow]
  generalize (2 : Rat) ^ 970 = p
  ring

/-- The magnitudes that are rounded to a finite number. -/
theorem isFinite_ofMagnitude (negative : Bool) (q : Rat) :
    (ofMagnitude negative q).isFinite = true ↔ q < 2 ^ 1024 - 2 ^ 970 := by
  have hpos := two_zpow_pos 971
  rw [range_eq, ← div_lt_iff₀ hpos]
  rcases le_or_gt q 0 with hq | hq
  · rw [ofMagnitude_of_nonpos hq]
    exact iff_of_true rfl ((div_nonpos_of_nonpos_of_nonneg hq hpos.le).trans_lt (by norm_num))
  have hunit := isUnit_unitExponent hq
  rw [isFinite_of_isUnit hq hunit]
  generalize unitExponent q = e at *
  rcases lt_trichotomy e 971 with he | rfl | he
  · have hbelow : q < magnitude (2 ^ 52) 971 := by
      rw [magnitude_two_pow]
      exact hunit.lt.trans_le (two_zpow_le (by omega))
    have hdiv := (div_lt_iff₀ hpos).mpr hbelow
    exact iff_of_true (by omega) (hdiv.trans (by norm_num))
  · have hbelow : q < magnitude (2 ^ 53) 971 := by
      rw [magnitude_two_pow]
      exact hunit.lt
    have hdiv := (div_lt_iff₀ hpos).mpr hbelow
    have hnonneg := div_nonneg hq.le hpos.le
    generalize q / 2 ^ (971 : Int) = r at *
    rcases lt_or_ge r (9007199254740991 : Nat) with hr | hr
    · have := nearestEven_le hnonneg hr
      exact iff_of_true (by omega) (hr.trans (by norm_num))
    · have hnearest := nearestEven_of_odd (by decide) hr (hdiv.trans_eq (by norm_num))
      by_cases hhalf : r < 9007199254740991 + 1 / 2
      · rw [if_pos (by exact_mod_cast hhalf)] at hnearest
        exact iff_of_true (by omega) hhalf
      · rw [if_neg (by exact_mod_cast hhalf)] at hnearest
        exact iff_of_false (by omega) hhalf
  · have habove : magnitude (2 ^ 53) 971 ≤ q := by
      rw [magnitude_two_pow]
      exact (two_zpow_le (by omega)).trans (hunit.full.resolve_left (by omega))
    have hdiv := (le_div_iff₀ hpos).mpr habove
    exact iff_of_false (by omega) (not_lt.mpr (le_trans (by norm_num) hdiv))

end Worksheet.Double
