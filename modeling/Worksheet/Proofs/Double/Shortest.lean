-- Decimals that lead back. The double of a decimal is a matter of its value
-- alone, however far the value is past the range. So the shortest decimal of
-- a finite double is read as the double's magnitude: the search takes only
-- decimals that are, and all digits of the double are one.
import Worksheet.Proofs.Double.Rounding

namespace Worksheet

/-! ## Powers of ten -/

theorem two_pow_le_ten_pow (k : Nat) : (2 : Rat) ^ (9 * k) ≤ 10 ^ (3 * k) := by
  rw [pow_mul, pow_mul]
  exact pow_le_pow_left₀ (by norm_num) (by norm_num) k

theorem ten_zpow_le {a b : Int} (h : a ≤ b) : (10 : Rat) ^ a ≤ 10 ^ b :=
  zpow_le_zpow_right₀ (by norm_num) h

theorem ten_zpow_pos (e : Int) : (0 : Rat) < 10 ^ e := zpow_pos (by norm_num) e

theorem ten_zpow_add (a b : Int) : (10 : Rat) ^ (a + b) = 10 ^ a * 10 ^ b :=
  zpow_add₀ (by norm_num) a b

namespace Decimal

/-! ## Decimals past the range -/

theorem two_zpow_le_value {d : Decimal} (hd : d.digits ≠ 0) (h : 400 < d.exponent) :
    2 ^ (1024 : Int) ≤ d.value := by
  have hone : (1 : Rat) ≤ d.digits := Nat.one_le_cast.mpr (Nat.pos_of_ne_zero hd)
  calc (2 : Rat) ^ (1024 : Int) ≤ 2 ^ ((9 * 114 : Nat) : Int) := Double.two_zpow_le (by norm_num)
    _ ≤ 10 ^ ((3 * 114 : Nat) : Int) := by
        rw [zpow_natCast, zpow_natCast]
        exact two_pow_le_ten_pow 114
    _ ≤ 10 ^ d.exponent := ten_zpow_le (by omega)
    _ ≤ d.value := le_mul_of_one_le_left (ten_zpow_pos _).le hone

theorem value_lt_two_zpow {d : Decimal} (h : d.exponent + (d.digits.log2 : Int) < -400) :
    d.value < 2 ^ (-1075 : Int) := by
  have hdigits : (d.digits : Rat) < 10 ^ ((d.digits.log2 : Int) + 1) := by
    have hlt : (d.digits : Rat) < (10 : Nat) ^ (d.digits.log2 + 1) := by
      exact_mod_cast Nat.lt_log2_self.trans_le (Nat.pow_le_pow_left (by decide) _)
    exact_mod_cast hlt
  have htail : (10 : Rat) ^ (-((3 * 120 : Nat) : Int)) ≤ 2 ^ (-((9 * 120 : Nat) : Int)) := by
    rw [zpow_neg, zpow_neg, zpow_natCast, zpow_natCast]
    exact inv_anti₀ (by positivity) (two_pow_le_ten_pow 120)
  calc d.value < 10 ^ ((d.digits.log2 : Int) + 1) * 10 ^ d.exponent :=
        mul_lt_mul_of_pos_right hdigits (ten_zpow_pos _)
    _ = 10 ^ ((d.digits.log2 : Int) + 1 + d.exponent) := (ten_zpow_add _ _).symm
    _ ≤ 10 ^ (-((3 * 120 : Nat) : Int)) := ten_zpow_le (by omega)
    _ ≤ 2 ^ (-((9 * 120 : Nat) : Int)) := htail
    _ ≤ 2 ^ (-1075 : Int) := Double.two_zpow_le (by norm_num)

/-- The double of a decimal is that of its value. -/
theorem toDouble_eq (negative : Bool) (d : Decimal) :
    d.toDouble negative = .ofMagnitude negative d.value := by
  unfold toDouble
  split_ifs with hzero hlarge hsmall
  · rw [Double.ofMagnitude_of_nonpos]
    simp [value, hzero]
  · rw [Double.ofMagnitude_of_large (two_zpow_le_value hzero hlarge)]
  · rw [Double.ofMagnitude_of_small (value_lt_two_zpow hsmall)]
  · rfl

theorem toDouble_of_value_eq {d d' : Decimal} (h : d.value = d'.value) (negative : Bool) :
    d.toDouble negative = d'.toDouble negative := by
  rw [toDouble_eq, toDouble_eq, h]

end Decimal

namespace Double

/-! ## The shortest decimal -/

/-- All digits of a finite number make its magnitude. -/
theorem value_exactDecimal (negative : Bool) (m : Nat) (e : Int) (h : Canonical m e) :
    (exactDecimal (.finite negative m e h)).value = magnitude m e := by
  unfold exactDecimal magnitude Decimal.value
  dsimp only
  split
  · rename_i he
    lift e to Nat using he
    simp
  · rename_i he
    obtain ⟨k, rfl⟩ := Int.exists_eq_neg_ofNat (show e ≤ 0 by omega)
    have hten : (10 : Rat) ^ k = 2 ^ k * 5 ^ k := by
      rw [← mul_pow]
      norm_num
    have hcast : ((m * Nat.pow 5 (- -(k : Int)).toNat : Nat) : Rat) = m * 5 ^ k := by
      simp
    rw [hcast, zpow_neg, zpow_neg, zpow_natCast, zpow_natCast, hten]
    field_simp

theorem toDouble_of_nearDecimal? {x : Double} {n : Nat} {d : Decimal}
    (h : x.nearDecimal? n = some d) : d.toDouble false = x.abs := by
  unfold nearDecimal? at h
  dsimp only at h
  split_ifs at h with hbelow habove hnear hfar heven habove
  all_goals
    rw [Option.some.injEq] at h
    subst h
    assumption

/-- The shortest decimal of a finite number is read as its magnitude. -/
theorem toDouble_shortest (negative : Bool) (m : Nat) (e : Int) (h : Canonical m e) :
    (shortest (.finite negative m e h)).toDouble false = .finite false m e h := by
  unfold shortest
  split
  · rename_i hzero
    have hm : m = 0 := by simpa [isZero] using hzero
    subst hm
    have he : e = -1074 := h.2.2.2.resolve_left (by omega)
    subst he
    rfl
  · cases hfound : (List.range 17).findSome? fun n =>
        (finite negative m e h).nearDecimal? (n + 1) with
    | some d =>
      obtain ⟨n, -, hn⟩ := List.exists_of_findSome?_eq_some hfound
      exact toDouble_of_nearDecimal? hn
    | none =>
      rw [Option.getD_none, Decimal.toDouble_eq, value_exactDecimal, ofMagnitude_magnitude h]

end Double

end Worksheet
