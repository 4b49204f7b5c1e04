-- When a power of integers is an infinity. The power of their doubles may be too
-- large, but an operand that has no double gives the same answer, also where the
-- exact power is no more than one.
import Mathlib.Algebra.Order.Ring.Pow
import Worksheet.Proofs.Double.Nearest
import Worksheet.Proofs.Number.Overflow

namespace Worksheet.Number

variable {a b : Int} {s : Bool}

/-! ## Where there is an infinity -/

theorem not_zero_to_negative (ha : a ≠ 0) :
    ¬ (isZero (.int a) = true ∧ isNegative (.int b) = true) :=
  fun h => ha (by simpa [isZero] using h.1)

theorem isIntegral_of_toDouble {x : Double} (h : toDouble (.int a) = .ok x) :
    x.isIntegral = true := by
  obtain ⟨rfl, hfinite⟩ := eq_ofInt_of_toDouble h
  exact Double.isIntegral_ofInt hfinite

/-- The doubles of two integers give no power: one of them is not there, or the
power is too large. -/
inductive Saturated (a b : Int) : Prop
  | base : PastDoubles (.int a) → Saturated a b
  | exponent : PastDoubles (.int b) → Saturated a b
  | power {x y : Double} : toDouble (.int a) = .ok x → toDouble (.int b) = .ok y →
      x.pow y = .error .overflow → Saturated a b

/-- The power of two integers is that of their doubles, or it is saturated. -/
theorem power_int_cases (ha : a ≠ 0) :
    (∃ x y r, toDouble (.int a) = .ok x ∧ toDouble (.int b) = .ok y ∧ x.pow y = .ok r ∧
        power (.int a) (.int b) = .ok r) ∨
      Saturated a b ∧ power (.int a) (.int b) = saturate (.int a) (.int b) := by
  have hzero := not_zero_to_negative (b := b) ha
  rcases toDouble_cases (.int a) with ⟨hpast, -⟩ | ⟨-, x, hx⟩
  · exact Or.inr ⟨.base hpast, power_of_pastDoubles hzero (Or.inl hpast)⟩
  rcases toDouble_cases (.int b) with ⟨hpast, -⟩ | ⟨-, y, hy⟩
  · exact Or.inr ⟨.exponent hpast, power_of_pastDoubles hzero (Or.inr hpast)⟩
  have hpower := power_of_toDouble hzero hx hy
  rcases Double.pow_cases x y with ⟨r, hr⟩ | hr | ⟨-, hxzero, -⟩ | ⟨-, -, hfraction⟩
  · rw [hr] at hpower
    exact Or.inl ⟨x, y, r, hx, hy, hr, hpower⟩
  · rw [hr] at hpower
    exact Or.inr ⟨.power hx hy hr, hpower⟩
  · rw [← (sign_of_toDouble hx).1] at hxzero
    exact absurd (by simpa [isZero] using hxzero) ha
  · rw [isIntegral_of_toDouble hy] at hfraction
    cases hfraction

/-- Below zero the exponent must have a double. -/
theorem power_of_large_exponent (ha : a < 0) (hb : PastDoubles (.int b)) :
    power (.int a) (.int b) = .error .integerTooLarge := by
  have hneg : isNegative (.int a) = true := by rw [isNegative_int, decide_eq_true ha]
  rw [power_of_pastDoubles (not_zero_to_negative ha.ne) (Or.inr hb), saturate_of_negative hneg,
    toDouble_of_pastDoubles hb]
  rfl

/-- In any other case there is a power. -/
theorem exists_power (ha : a ≠ 0) (hlarge : ¬ (a < 0 ∧ PastDoubles (.int b))) :
    ∃ r, power (.int a) (.int b) = .ok r := by
  rcases power_int_cases (b := b) ha with ⟨-, -, r, -, -, -, hr⟩ | ⟨-, hsaturate⟩
  · exact ⟨r, hr⟩
  · rcases saturate_cases (.int a) (.int b) with ⟨s, hs⟩ | ⟨hneg, hb⟩
    · exact ⟨_, hsaturate.trans hs⟩
    · rw [isNegative_int, decide_eq_true_eq] at hneg
      exact absurd ⟨hneg, hb⟩ hlarge

/-- The power of doubles is never an infinity, so an infinity is saturated. -/
theorem saturated_of_infinity (ha : a ≠ 0) (h : power (.int a) (.int b) = .ok (.infinity s)) :
    Saturated a b ∧ saturate (.int a) (.int b) = .ok (.infinity s) := by
  rcases power_int_cases (b := b) ha with ⟨x, y, r, hx, hy, hr, hpower⟩ | ⟨hcause, hsaturate⟩
  · have hinfinite := Double.isInfinite_of_pow (eq_ofInt_of_toDouble hx).2
      (eq_ofInt_of_toDouble hy).2 hr
    rw [hpower] at h
    cases h
    cases hinfinite
  · exact ⟨hcause, hsaturate.symm.trans h⟩

/-! ## The sign -/

/-- An infinity is negative for a base below zero and an odd exponent. -/
theorem sign_of_infinity (ha : a ≠ 0) (h : power (.int a) (.int b) = .ok (.infinity s)) :
    s = decide (a < 0 ∧ b % 2 = 1) := by
  have hsaturate := (saturated_of_infinity ha h).2
  by_cases hneg : a < 0
  · rw [saturate_of_negative (by rw [isNegative_int, decide_eq_true hneg])] at hsaturate
    cases hy : toDouble (.int b) with
    | error f =>
      rw [hy] at hsaturate
      cases hsaturate
    | ok y =>
      rw [hy, Except.map, isIntegral_of_toDouble hy] at hsaturate
      cases hsaturate
      simp [hneg, isOdd, Bool.beq_eq_decide_eq]
  · rw [saturate_of_nonnegative (by rw [isNegative_int, decide_eq_false hneg])] at hsaturate
    cases hsaturate
    simp [hneg]

/-! ## The exact power -/

/-- Operands without a double, whose power is no more than one but is answered as
if it were too large. -/
inductive Misjudged (a b : Int) : Prop
  | base : PastDoubles (.int a) → b ≤ 0 → (0 < a ∨ ¬ PastDoubles (.int b)) → Misjudged a b
  | exponent : 0 < a → PastDoubles (.int b) → (a = 1 ∨ b < 0) → Misjudged a b

theorem one_le_abs_cast (ha : a ≠ 0) : (1 : Rat) ≤ |(a : Rat)| := by
  exact_mod_cast Int.one_le_abs ha

theorem Misjudged.power_le_one (ha : a ≠ 0) (h : Misjudged a b) : |(a : Rat)| ^ b ≤ 1 := by
  have hsmall : b ≤ 0 → |(a : Rat)| ^ b ≤ 1 := zpow_le_one_of_nonpos₀ (one_le_abs_cast ha)
  cases h with
  | base _ hb _ => exact hsmall hb
  | exponent _ _ hone =>
    rcases hone with rfl | hb
    · simp
    · exact hsmall hb.le

theorem Misjudged.exists_infinity (ha : a ≠ 0) (h : Misjudged a b) :
    ∃ s, power (.int a) (.int b) = .ok (.infinity s) := by
  have hpast : PastDoubles (.int a) ∨ PastDoubles (.int b) := by
    cases h with
    | base hpast => exact Or.inl hpast
    | exponent _ hpast => exact Or.inr hpast
  rw [power_of_pastDoubles (not_zero_to_negative ha) hpast]
  refine (saturate_cases _ _).resolve_right fun hlarge => ?_
  rw [isNegative_int, decide_eq_true_eq] at hlarge
  cases h with
  | base _ _ hdouble => exact hdouble.elim hlarge.1.asymm (absurd hlarge.2)
  | exponent hpos => exact hlarge.1.asymm hpos

/-- The integer is the value of a double. -/
def IsDouble (a : Int) : Prop := ∃ x, toDouble (.int a) = .ok x ∧ x.value = a

theorem large_base (ha : PastDoubles (.int a)) (hb : 0 < b) :
    (2 : Rat) ^ 1023 < |(a : Rat)| ^ b := by
  have hpow : (2 : Rat) ^ 1023 = 2 ^ 53 * 2 ^ 970 := pow_add 2 53 970
  have hrange : (2 : Rat) ^ 1023 < 2 ^ 1024 - 2 ^ 970 := by
    calc (2 : Rat) ^ 1023 = 2 ^ 53 * 2 ^ 970 := hpow
      _ < (2 ^ 54 - 1) * 2 ^ 970 := mul_lt_mul_of_pos_right (by norm_num) (by positivity)
      _ = 2 ^ 1024 - 2 ^ 970 := by rw [sub_mul, one_mul, ← pow_add]
  have hpast : (2 : Rat) ^ 1023 < |(a : Rat)| := hrange.trans_le ha
  have hone : (1 : Rat) ≤ |(a : Rat)| := (one_le_pow₀ (by norm_num)).trans hpast.le
  calc (2 : Rat) ^ 1023 < |(a : Rat)| ^ (1 : Int) := hpast.trans_eq (zpow_one _).symm
    _ ≤ |(a : Rat)| ^ b := zpow_le_zpow_right₀ hone hb

theorem large_exponent (ha : 2 ≤ |a|) (hb : 1024 ≤ b) : (2 : Rat) ^ 1023 < |(a : Rat)| ^ b := by
  have htwo : (2 : Rat) ≤ |(a : Rat)| := by exact_mod_cast ha
  calc (2 : Rat) ^ 1023 < 2 ^ 1024 := pow_lt_pow_right₀ (by norm_num) (by norm_num)
    _ ≤ |(a : Rat)| ^ 1024 := pow_le_pow_left₀ (by norm_num) htwo 1024
    _ = |(a : Rat)| ^ (1024 : Int) := (zpow_natCast _ 1024).symm
    _ ≤ |(a : Rat)| ^ b := zpow_le_zpow_right₀ (by linarith) hb

theorem not_pastDoubles_of_small (h : b.natAbs < 2 ^ 53) : ¬ PastDoubles (.int b) :=
  not_le.mpr ((Double.ofInt_range b).1.mp (Double.isFinite_ofInt_of_small h))

/-- The rounding of a base is felt little in its powers below 1024. -/
theorem rounding_pow_le {k : Nat} (hk : k ≤ 1023) :
    (1 + 2 ^ (-53 : Int) : Rat) ^ k ≤ 1 + 2 ^ (-42 : Int) := by
  have hsmall : (1 : Rat) ≤ (1 + 2 ^ (-42 : Int)) * (1 + k * -(2 ^ (-53 : Int))) := by
    have hcast : (k : Rat) ≤ 1023 := by exact_mod_cast hk
    have hlast : 1 + 1023 * -(2 ^ (-53 : Int)) ≤ 1 + (k : Rat) * -(2 ^ (-53 : Int)) :=
      add_le_add_right (mul_le_mul_of_nonpos_right hcast (by norm_num)) 1
    exact le_trans (by norm_num) (mul_le_mul_of_nonneg_left hlast (by norm_num))
  have hbernoulli : 1 + (k : Rat) * -(2 ^ (-53 : Int)) ≤ (1 + -(2 ^ (-53 : Int))) ^ k :=
    one_add_mul_le_pow (by norm_num) k
  have hproduct : (1 + 2 ^ (-53 : Int) : Rat) ^ k * (1 + -(2 ^ (-53 : Int))) ^ k ≤ 1 := by
    rw [← mul_pow]
    exact pow_le_one₀ (by norm_num) (by norm_num)
  calc (1 + 2 ^ (-53 : Int) : Rat) ^ k
      ≤ (1 + 2 ^ (-53 : Int)) ^ k *
          ((1 + 2 ^ (-42 : Int)) * (1 + k * -(2 ^ (-53 : Int)))) :=
        le_mul_of_one_le_right (by positivity) hsmall
    _ ≤ (1 + 2 ^ (-53 : Int)) ^ k *
          ((1 + 2 ^ (-42 : Int)) * (1 + -(2 ^ (-53 : Int))) ^ k) := by gcongr
    _ = (1 + 2 ^ (-42 : Int)) *
          ((1 + 2 ^ (-53 : Int)) ^ k * (1 + -(2 ^ (-53 : Int))) ^ k) := mul_left_comm _ _ _
    _ ≤ 1 + 2 ^ (-42 : Int) := mul_le_of_le_one_right (by positivity) hproduct

/-- The power of the doubles is more than one for a base and an exponent that
make the exact one large. -/
theorem operands_of_one_lt (ha : a ≠ 0) (hfinite : (Double.ofInt a).isFinite = true)
    (h : 1 < |(Double.ofInt a).value| ^ (Double.ofInt b).value.num) : 0 < b ∧ 2 ≤ |a| := by
  constructor
  · by_contra hb
    have hone := Double.one_le_abs_value_ofInt ha hfinite
    have hnum := Rat.num_nonpos.mpr (Double.value_ofInt_nonpos (not_lt.mp hb))
    exact not_le.mpr h (zpow_le_one_of_nonpos₀ hone hnum)
  · by_contra htwo
    have hself : |a| = 1 := le_antisymm (by omega) (Int.one_le_abs ha)
    have hnat : (a.natAbs : Int) = 1 := (Int.abs_eq_natAbs a).symm.trans hself
    have habs : |(a : Rat)| = 1 := by exact_mod_cast hself
    rw [Double.value_ofInt_of_small (by omega), habs, one_zpow] at h
    exact lt_irrefl _ h

/-- Where the power of the doubles is past 2^1023 the exact power is too, up to
the rounding of the base. -/
theorem past_of_doubles {x y : Double} (ha : a ≠ 0) (hx : toDouble (.int a) = .ok x)
    (hy : toDouble (.int b) = .ok y) (hpast : (2 : Rat) ^ 1023 < |x.value| ^ y.value.num) :
    (2 : Rat) ^ 1023 < |(a : Rat)| ^ b ∨
      ¬ IsDouble a ∧ (2 : Rat) ^ 1023 < (1 + 2 ^ (-42 : Int)) * |(a : Rat)| ^ b := by
  obtain ⟨rfl, hfinite⟩ := eq_ofInt_of_toDouble hx
  obtain ⟨rfl, -⟩ := eq_ofInt_of_toDouble hy
  obtain ⟨hb, htwo⟩ := operands_of_one_lt ha hfinite ((one_le_pow₀ (by norm_num)).trans_lt hpast)
  rcases le_or_gt 1024 b with hlarge | hsmall
  · exact Or.inl (large_exponent htwo hlarge)
  · -- such an exponent is its own double, so that only the base is rounded
    obtain ⟨k, rfl⟩ := Int.eq_ofNat_of_zero_le hb.le
    have hvalue : (Double.ofInt k).value = (k : Int) := Double.value_ofInt_of_small (by omega)
    rw [hvalue, Rat.num_intCast] at hpast
    by_cases hdouble : IsDouble a
    · obtain ⟨x, hx', hbase⟩ := hdouble
      rw [hx] at hx'
      cases hx'
      exact Or.inl (hbase ▸ hpast)
    · refine Or.inr ⟨hdouble, hpast.trans_le ?_⟩
      rw [zpow_natCast, zpow_natCast]
      calc |(Double.ofInt a).value| ^ k
          ≤ ((1 + 2 ^ (-53 : Int)) * |(a : Rat)|) ^ k :=
            pow_le_pow_left₀ (abs_nonneg _) (Double.abs_value_ofInt_le hfinite) k
        _ = (1 + 2 ^ (-53 : Int)) ^ k * |(a : Rat)| ^ k := mul_pow _ _ _
        _ ≤ (1 + 2 ^ (-42 : Int)) * |(a : Rat)| ^ k :=
            mul_le_mul_of_nonneg_right (rounding_pow_le (by omega)) (by positivity)

/-- An infinity that is not misjudged stands for a power past 2^1023, up to the
rounding of the base. -/
theorem past_of_infinity (ha : a ≠ 0)
    (hpow : ∀ x y, toDouble (.int a) = .ok x → toDouble (.int b) = .ok y →
      x.pow y = .error .overflow → (2 : Rat) ^ 1023 < |x.value| ^ y.value.num)
    (h : power (.int a) (.int b) = .ok (.infinity s)) :
    Misjudged a b ∨ (2 : Rat) ^ 1023 < |(a : Rat)| ^ b ∨
      ¬ IsDouble a ∧ (2 : Rat) ^ 1023 < (1 + 2 ^ (-42 : Int)) * |(a : Rat)| ^ b := by
  have hsmall : ¬ (a < 0 ∧ PastDoubles (.int b)) := by
    rintro ⟨hneg, hb⟩
    rw [power_of_large_exponent hneg hb] at h
    cases h
  cases (saturated_of_infinity ha h).1 with
  | base hbase =>
    rcases le_or_gt b 0 with hb | hb
    · left
      refine .base hbase hb ?_
      by_contra hboth
      rw [not_or, not_not, not_lt] at hboth
      exact hsmall ⟨lt_of_le_of_ne hboth.1 ha, hboth.2⟩
    · exact Or.inr (Or.inl (large_base hbase hb))
  | exponent hexponent =>
    have hpos : 0 < a := lt_of_le_of_ne (not_lt.mp fun hneg => hsmall ⟨hneg, hexponent⟩) ha.symm
    by_cases hone : a = 1 ∨ b < 0
    · exact Or.inl (.exponent hpos hexponent hone)
    · rw [not_or, not_lt] at hone
      have htwo : 2 ≤ |a| := by
        rw [abs_of_pos hpos]
        omega
      have hlarge : 1024 ≤ b := by
        by_contra hsmall
        exact not_pastDoubles_of_small (by omega) hexponent
      exact Or.inr (Or.inl (large_exponent htwo hlarge))
  | power hx hy hover => exact Or.inr (past_of_doubles ha hx hy (hpow _ _ hx hy hover))

/-- The power of two integers, the first of them not zero. There is one, unless
the first is below zero and the second has no double. An infinity has the sign of
the exact power, which is past 2^1023 up to the rounding of the base, provided
that the power of the doubles is where it overflows; or else it is misjudged. All
powers that are misjudged are infinities, and none of them is more than one. -/
theorem power_saturates (ha : a ≠ 0)
    (hpow : ∀ x y, toDouble (.int a) = .ok x → toDouble (.int b) = .ok y →
      x.pow y = .error .overflow → (2 : Rat) ^ 1023 < |x.value| ^ y.value.num) :
    (a < 0 ∧ PastDoubles (.int b) → power (.int a) (.int b) = .error .integerTooLarge) ∧
    (¬ (a < 0 ∧ PastDoubles (.int b)) → ∃ r, power (.int a) (.int b) = .ok r) ∧
    (∀ s, power (.int a) (.int b) = .ok (.infinity s) →
      s = decide (a < 0 ∧ b % 2 = 1) ∧
        (Misjudged a b ∨ (2 : Rat) ^ 1023 < |(a : Rat)| ^ b ∨
          ¬ IsDouble a ∧ (2 : Rat) ^ 1023 < (1 + 2 ^ (-42 : Int)) * |(a : Rat)| ^ b)) ∧
    (Misjudged a b → |(a : Rat)| ^ b ≤ 1 ∧ ∃ s, power (.int a) (.int b) = .ok (.infinity s)) :=
  ⟨fun h => power_of_large_exponent h.1 h.2, exists_power ha,
    fun _ h => ⟨sign_of_infinity ha h, past_of_infinity ha hpow h⟩,
    fun h => ⟨h.power_le_one ha, h.exists_infinity ha⟩⟩

/-- Minus ten to an odd exponent: whatever the machine answers, its infinity is
the negative one. -/
theorem power_saturates_below_zero :
    (-10 : Int) ≠ 0 ∧
      (∀ x y, toDouble (.int (-10)) = .ok x → toDouble (.int 5001) = .ok y →
        x.pow y = .error .overflow → (2 : Rat) ^ 1023 < |x.value| ^ y.value.num) ∧
      (∃ r, power (.int (-10)) (.int 5001) = .ok r) ∧
      ∀ s, power (.int (-10)) (.int 5001) = .ok (.infinity s) → s = true := by
  have hbase : (-10 : Int) ≠ 0 := by decide
  have hpow : ∀ x y, toDouble (.int (-10)) = .ok x → toDouble (.int 5001) = .ok y →
      x.pow y = .error .overflow → (2 : Rat) ^ 1023 < |x.value| ^ y.value.num := by
    intro x y hx hy _
    obtain ⟨rfl, -⟩ := eq_ofInt_of_toDouble hx
    obtain ⟨rfl, -⟩ := eq_ofInt_of_toDouble hy
    rw [Double.value_ofInt_of_small (by decide), Double.value_ofInt_of_small (by decide),
      Rat.num_intCast]
    exact large_exponent (by decide) (by decide)
  have hsmall : ¬ ((-10 : Int) < 0 ∧ PastDoubles (.int 5001)) :=
    fun h => not_pastDoubles_of_small (by decide) h.2
  obtain ⟨-, hsome, hinfinity, -⟩ := power_saturates hbase hpow
  exact ⟨hbase, hpow, hsome hsmall, fun s hs => (hinfinity s hs).1⟩

/-- One to an exponent that has no double: there is no power of doubles, and the
answer is an infinity. -/
theorem one_to_large_exponent :
    toDouble (.int (10 ^ 309 : Nat)) = .error .integerTooLarge ∧
      power (.int 1) (.int (10 ^ 309 : Nat)) = .ok (.infinity false) ∧
      ¬ (2 : Rat) ^ 1023 < |((1 : Int) : Rat)| ^ ((10 ^ 309 : Nat) : Int) := by
  have hpast := pastDoubles_pow_ten (Nat.le_refl 309)
  refine ⟨toDouble_of_pastDoubles hpast, ?_, ?_⟩
  · rw [power_of_pastDoubles (not_zero_to_negative one_ne_zero) (Or.inr hpast)]
    exact saturate_of_nonnegative (by decide) _
  · rw [Int.cast_one, abs_one, one_zpow]
    exact not_lt.mpr (one_le_pow₀ (by norm_num))

end Worksheet.Number
