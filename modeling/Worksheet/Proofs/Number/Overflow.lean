-- Where a calculation leaves the doubles. An integer past their range has no
-- double, so it cannot be calculated with beside one, a quotient of integers
-- may be past the range itself, and a power looks for the double of its
-- exponent. Any other calculation has a result or a fault of its own.
import Worksheet.Expression.Operator
import Worksheet.Proofs.Double.Power

namespace Worksheet

/-! ## Numbers and their doubles -/

namespace Number

/-- An integer that is rounded past the largest double. -/
def PastDoubles : Number → Prop
  | .int n => 2 ^ 1024 - 2 ^ 970 ≤ |(n : Rat)|
  | .double _ => False

/-- The powers of ten past the doubles. -/
theorem pastDoubles_pow_ten {k : Nat} (h : 309 ≤ k) :
    PastDoubles (.int (10 ^ k : Nat)) := by
  have hbound : (2 : Rat) ^ 1024 ≤ 10 ^ 309 := by
    calc (2 : Rat) ^ 1024 = (2 ^ 256) ^ 4 := by rw [← pow_mul]
      _ ≤ (10 ^ 77) ^ 4 * 10 := by norm_num
      _ = 10 ^ 309 := by rw [← pow_mul, ← pow_succ]
  have hpow : (10 : Rat) ^ 309 ≤ 10 ^ k := pow_le_pow_right₀ (by norm_num) h
  have hpos : (0 : Rat) < 2 ^ 970 := by positivity
  unfold PastDoubles
  dsimp only
  rw [Int.cast_natCast, Nat.cast_pow, Nat.cast_ofNat, abs_of_pos (by positivity)]
  exact (sub_le_self _ hpos.le).trans (hbound.trans hpow)

theorem toDouble_int_cases (n : Int) :
    PastDoubles (.int n) ∧ toDouble (.int n) = .error .integerTooLarge ∨
      ¬ PastDoubles (.int n) ∧ toDouble (.int n) = .ok (Double.ofInt n) := by
  have hrange := (Double.ofInt_range n).1
  unfold PastDoubles toDouble Double.ofInt?
  dsimp only
  by_cases hfinite : (Double.ofInt n).isFinite = true
  · rw [if_pos hfinite]
    exact Or.inr ⟨not_le.mpr (hrange.mp hfinite), rfl⟩
  · rw [if_neg hfinite]
    exact Or.inl ⟨not_lt.mp fun h => hfinite (hrange.mpr h), rfl⟩

/-- The double of an integer is its rounding, which is finite. -/
theorem eq_ofInt_of_toDouble {n : Int} {x : Double} (h : toDouble (.int n) = .ok x) :
    x = Double.ofInt n ∧ x.isFinite = true := by
  rcases toDouble_int_cases n with ⟨-, hn⟩ | ⟨hpast, hn⟩
  · rw [hn] at h
    cases h
  · rw [hn] at h
    cases h
    exact ⟨rfl, (Double.ofInt_range n).1.mpr (not_le.mp hpast)⟩

theorem toDouble_of_pastDoubles {a : Number} (h : a.PastDoubles) :
    a.toDouble = .error .integerTooLarge := by
  cases a with
  | int n =>
    rcases toDouble_int_cases n with ⟨-, hn⟩ | ⟨hn, -⟩
    · exact hn
    · exact absurd h hn
  | double x => exact h.elim

theorem toDouble_cases (a : Number) :
    a.PastDoubles ∧ a.toDouble = .error .integerTooLarge ∨
      ¬ a.PastDoubles ∧ ∃ x, a.toDouble = .ok x := by
  cases a with
  | int n => exact (toDouble_int_cases n).imp_right fun h => ⟨h.1, _, h.2⟩
  | double x => exact Or.inr ⟨not_false, x, rfl⟩

theorem isNegative_int (n : Int) : isNegative (.int n) = decide (n < 0) := by
  rw [Bool.eq_iff_iff, isNegative, compare?]
  simp [place?, Double.comparePlaces_eq_lt_iff]

theorem isNegative_double (x : Double) : isNegative (.double x) = x.lt (.zero false) := by
  have hzero : (Number.int 0).place? = (Double.zero false).place? := by
    rw [Double.place?_zero]
    rfl
  unfold isNegative compare? Double.lt Double.compare?
  rw [hzero]
  rfl

/-- Rounding to a double keeps what is zero and what is below zero. -/
theorem sign_of_toDouble {a : Number} {x : Double} (h : a.toDouble = .ok x) :
    a.isZero = x.isZero ∧ a.isNegative = x.lt (.zero false) := by
  cases a with
  | int n =>
    obtain ⟨rfl, -⟩ := eq_ofInt_of_toDouble h
    rw [isNegative_int, Double.isZero_ofInt, Double.lt_zero_ofInt]
    exact ⟨rfl, rfl⟩
  | double y =>
    cases h
    exact ⟨rfl, isNegative_double x⟩

theorem isZero_of_isNegative {a : Number} (h : a.isNegative = true) : a.isZero = false := by
  cases a with
  | int n =>
    rw [isNegative_int, decide_eq_true_eq] at h
    exact beq_eq_false_iff_ne.mpr h.ne
  | double x =>
    rw [isNegative_double, Double.lt_zero, Bool.and_eq_true, Bool.not_eq_true'] at h
    exact h.2

theorem isZero_of_pastDoubles {a : Number} (h : a.PastDoubles) : a.isZero = false := by
  have hfault := toDouble_of_pastDoubles h
  cases a with
  | int n =>
    apply beq_eq_false_iff_ne.mpr
    rintro rfl
    cases hfault
  | double x => exact h.elim

/-! ## Calculations -/

/-- An integer past the doubles stands beside a double. -/
inductive Unmixable : Number → Number → Prop
  | left {n : Int} {x : Double} : PastDoubles (.int n) → Unmixable (.int n) (.double x)
  | right {x : Double} {n : Int} : PastDoubles (.int n) → Unmixable (.double x) (.int n)

theorem combine_of_unmixable {a b : Number} (h : Unmixable a b) (exact : Int → Int → Int)
    (rounded : Double → Double → Double) :
    a.combine exact rounded b = .error .integerTooLarge := by
  unfold combine
  cases h with
  | left hn =>
    dsimp only
    rw [toDouble_of_pastDoubles hn]
  | right hn =>
    dsimp only
    rw [toDouble_of_pastDoubles hn]
    rfl

theorem combine_cases (a b : Number) (exact : Int → Int → Int)
    (rounded : Double → Double → Double) :
    (∃ n, a.combine exact rounded b = .ok n) ∨ Unmixable a b := by
  unfold combine
  cases a with
  | int m =>
    cases b with
    | int n => exact Or.inl ⟨_, rfl⟩
    | double y =>
      dsimp only
      rcases toDouble_int_cases m with ⟨hm, -⟩ | ⟨-, hm⟩
      · exact Or.inr (.left hm)
      · rw [hm]
        exact Or.inl ⟨_, rfl⟩
  | double x =>
    cases b with
    | int n =>
      dsimp only
      rcases toDouble_int_cases n with ⟨hn, -⟩ | ⟨-, hn⟩
      · exact Or.inr (.right hn)
      · rw [hn]
        exact Or.inl ⟨_, rfl⟩
    | double y => exact Or.inl ⟨_, rfl⟩

/-- Unless both are integers, a quotient is a calculation on doubles like any
other. -/
theorem map_quotient {a b : Number} (h : ∀ m n, ¬ (a = .int m ∧ b = .int n))
    (exact : Int → Int → Int) :
    (a.quotient b).map Number.double = a.combine exact Double.div b := by
  unfold quotient combine
  cases a with
  | int m =>
    cases b with
    | int n => exact absurd ⟨rfl, rfl⟩ (h m n)
    | double y =>
      dsimp only
      cases toDouble (.int m) <;> rfl
  | double x =>
    dsimp only
    cases b.toDouble <;> rfl

/-- A quotient of integers is rounded once. -/
theorem quotient_int_cases {m n : Int} :
    2 ^ 1024 - 2 ^ 970 ≤ |(m : Rat) / n| ∧ quotient (.int m) (.int n) = .error .quotientTooLarge ∨
      |(m : Rat) / n| < 2 ^ 1024 - 2 ^ 970 ∧ ∃ x, quotient (.int m) (.int n) = .ok x := by
  have habs : ((m.natAbs : Rat) / n.natAbs) = |(m : Rat) / n| := by
    rw [abs_div, Nat.cast_natAbs, Nat.cast_natAbs]
    push_cast
    rfl
  have hrange := Double.isFinite_ofMagnitude (decide (m < 0) != decide (n < 0))
    ((m.natAbs : Rat) / n.natAbs)
  rw [habs] at hrange
  unfold quotient Double.ofQuotient
  dsimp only
  rw [habs]
  by_cases hfinite : |(m : Rat) / n| < 2 ^ 1024 - 2 ^ 970
  · rw [if_pos (hrange.mpr hfinite)]
    exact Or.inr ⟨hfinite, _, rfl⟩
  · rw [if_neg fun h => hfinite (hrange.mp h)]
    exact Or.inl ⟨not_lt.mp hfinite, rfl⟩

/-- A number that is whole and that two does not divide. -/
def isOdd : Number → Bool
  | .int n => n % 2 == 1
  | .double y => y.isOdd

theorem saturate_of_nonnegative {a : Number} (ha : a.isNegative = false) (b : Number) :
    a.saturate b = .ok (.infinity false) :=
  if_neg (by simp [ha])

/-- To know the sign of an infinity the exponent must have a double. -/
theorem saturate_of_negative {a : Number} (ha : a.isNegative = true) (b : Number) :
    a.saturate b = b.toDouble.map fun y => .infinity (y.isIntegral && b.isOdd) := by
  unfold saturate
  rw [if_pos ha]
  cases b.toDouble with
  | error f => rfl
  | ok y => cases b <;> rfl

theorem saturate_cases (a b : Number) :
    (∃ s, a.saturate b = .ok (.infinity s)) ∨ a.isNegative = true ∧ b.PastDoubles := by
  cases ha : a.isNegative with
  | false => exact Or.inl ⟨false, saturate_of_nonnegative ha b⟩
  | true =>
    rw [saturate_of_negative ha]
    rcases toDouble_cases b with ⟨hb, -⟩ | ⟨-, y, hb⟩
    · exact Or.inr ⟨rfl, hb⟩
    · rw [hb]
      exact Or.inl ⟨_, rfl⟩

/-- The power, where it is not that of zero to a number below zero. -/
theorem power_eq {a b : Number} (h : ¬ (a.isZero = true ∧ b.isNegative = true)) :
    a.power b =
      match a.toDouble, b.toDouble with
      | .ok x, .ok y =>
        match x.pow y with
        | .ok r => .ok r
        | .error .overflow => a.saturate b
        | .error .zeroToNegative => .error .zeroDoubleToNegative
        | .error .notReal => .error .complexPower
      | _, _ => a.saturate b :=
  if_neg (by simpa using h)

theorem power_of_toDouble {a b : Number} (h : ¬ (a.isZero = true ∧ b.isNegative = true))
    {x y : Double} (ha : a.toDouble = .ok x) (hb : b.toDouble = .ok y) :
    a.power b =
      match x.pow y with
      | .ok r => .ok r
      | .error .overflow => a.saturate b
      | .error .zeroToNegative => .error .zeroDoubleToNegative
      | .error .notReal => .error .complexPower := by
  rw [power_eq h, ha, hb]

theorem power_of_pastDoubles {a b : Number} (h : ¬ (a.isZero = true ∧ b.isNegative = true))
    (hpast : a.PastDoubles ∨ b.PastDoubles) : a.power b = a.saturate b := by
  rw [power_eq h]
  rcases hpast with ha | hb
  · rw [toDouble_of_pastDoubles ha]
  · rw [toDouble_of_pastDoubles hb]
    cases a.toDouble <;> rfl

theorem power_cases (a b : Number) :
    (∃ x, a.power b = .ok x) ∨ (∃ f, a.power b = .error f ∧ f.kind = .expression) ∨
      a.isNegative = true ∧ b.PastDoubles := by
  by_cases hzero : a.isZero = true ∧ b.isNegative = true
  · exact Or.inr (Or.inl ⟨.zeroToNegativePower, if_pos (by simpa using hzero), rfl⟩)
  have hsaturate : (∃ x, a.saturate b = .ok x) ∨
      (∃ f, a.saturate b = .error f ∧ f.kind = .expression) ∨
        a.isNegative = true ∧ b.PastDoubles :=
    (saturate_cases a b).imp (fun ⟨s, hs⟩ => ⟨_, hs⟩) Or.inr
  rcases toDouble_cases a with ⟨ha, -⟩ | ⟨-, x, hx⟩
  · rwa [power_of_pastDoubles hzero (Or.inl ha)]
  rcases toDouble_cases b with ⟨hb, -⟩ | ⟨-, y, hy⟩
  · rwa [power_of_pastDoubles hzero (Or.inr hb)]
  rw [power_of_toDouble hzero hx hy]
  rcases Double.pow_cases x y with ⟨r, hr⟩ | hr | ⟨-, hxzero, hyneg⟩ | ⟨hr, -⟩
  · rw [hr]
    exact Or.inl ⟨r, rfl⟩
  · rwa [hr]
  · -- zero to a number below zero has been sorted out by the integers' signs
    rw [(sign_of_toDouble hx).1, (sign_of_toDouble hy).2] at hzero
    exact absurd ⟨hxzero, hyneg⟩ hzero
  · rw [hr]
    exact Or.inr (Or.inl ⟨_, rfl, rfl⟩)

end Number

/-! ## Operators -/

namespace Arithmetic

/-- The operator calculates with a double that is not there, or gives a
quotient that is past the doubles. -/
inductive Overflows : Arithmetic → Number → Number → Prop
  | mixed {op : Arithmetic} {a b : Number} :
      op ≠ .power → (op = .divide ∨ op = .modulo → b.isZero = false) → Number.Unmixable a b →
      Overflows op a b
  | quotient {m n : Int} :
      n ≠ 0 → 2 ^ 1024 - 2 ^ 970 ≤ |(m : Rat) / n| → Overflows .divide (.int m) (.int n)
  | power {a b : Number} :
      a.isNegative = true → b.PastDoubles → Overflows .power a b

/-- Where an operator overflows, its fault is an overflow. -/
theorem Overflows.apply {op : Arithmetic} {a b : Number} (h : op.Overflows a b) :
    ∃ f, op.apply a b = .error f ∧ f.kind = .overflow := by
  cases h with
  | mixed hop hzero hmixed =>
    refine ⟨.integerTooLarge, ?_, rfl⟩
    have hcombine := fun exact rounded => Number.combine_of_unmixable hmixed exact rounded
    unfold Arithmetic.apply
    cases op with
    | plus => exact hcombine _ _
    | minus => exact hcombine _ _
    | times => exact hcombine _ _
    | divide =>
      have hints : ∀ m n, ¬ (a = .int m ∧ b = .int n) := by
        rintro m n ⟨rfl, rfl⟩
        cases hmixed
      dsimp only
      rw [if_neg (by simp [hzero (Or.inl rfl)]), Number.map_quotient hints Int.fdiv]
      exact hcombine _ _
    | modulo =>
      dsimp only
      rw [if_neg (by simp [hzero (Or.inr rfl)])]
      exact hcombine _ _
    | power => exact absurd rfl hop
  | @quotient m n hn hrange =>
    refine ⟨.quotientTooLarge, ?_, rfl⟩
    have hzero : (Number.int n).isZero = false := beq_eq_false_iff_ne.mpr hn
    unfold Arithmetic.apply
    dsimp only
    rcases Number.quotient_int_cases (m := m) (n := n) with ⟨-, hq⟩ | ⟨hlt, -⟩
    · rw [if_neg (by simp [hzero]), hq]
      rfl
    · exact absurd hrange (not_le.mpr hlt)
  | power ha hb =>
    have hzero := Number.isZero_of_isNegative ha
    refine ⟨.integerTooLarge, ?_, rfl⟩
    unfold Arithmetic.apply
    dsimp only
    rw [Number.power_of_pastDoubles (by simp [hzero]) (Or.inr hb), Number.saturate_of_negative ha,
      Number.toDouble_of_pastDoubles hb]
    rfl

/-- Where an operator does not overflow, it has a result or a fault of the
expression. -/
theorem apply_cases (op : Arithmetic) (a b : Number) :
    (∃ n, op.apply a b = .ok n) ∨ (∃ f, op.apply a b = .error f ∧ f.kind = .expression) ∨
      op.Overflows a b := by
  have hcombine : ∀ exact rounded, op ≠ .power →
      (op = .divide ∨ op = .modulo → b.isZero = false) →
      (∃ n, a.combine exact rounded b = .ok n) ∨ op.Overflows a b := fun exact rounded hop hzero =>
    (Number.combine_cases a b exact rounded).imp_right (.mixed hop hzero)
  unfold Arithmetic.apply
  cases op with
  | plus => exact (hcombine _ _ nofun (by simp)).imp_right Or.inr
  | minus => exact (hcombine _ _ nofun (by simp)).imp_right Or.inr
  | times => exact (hcombine _ _ nofun (by simp)).imp_right Or.inr
  | divide =>
    dsimp only
    split
    · exact Or.inr (Or.inl ⟨_, rfl, rfl⟩)
    · rename_i hzero
      rw [Bool.not_eq_true] at hzero
      by_cases hints : ∃ m n, a = .int m ∧ b = .int n
      · obtain ⟨m, n, rfl, rfl⟩ := hints
        rcases Number.quotient_int_cases (m := m) (n := n) with ⟨hrange, -⟩ | ⟨-, x, hx⟩
        · exact Or.inr (Or.inr (.quotient (beq_eq_false_iff_ne.mp hzero) hrange))
        · rw [hx]
          exact Or.inl ⟨_, rfl⟩
      · rw [Number.map_quotient (fun m n h => hints ⟨m, n, h⟩) Int.fdiv]
        exact (hcombine _ _ nofun fun _ => hzero).imp_right Or.inr
  | modulo =>
    dsimp only
    split
    · exact Or.inr (Or.inl ⟨_, rfl, rfl⟩)
    · rename_i hzero
      rw [Bool.not_eq_true] at hzero
      exact (hcombine _ _ nofun fun _ => hzero).imp_right Or.inr
  | power =>
    rcases Number.power_cases a b with ⟨x, hx⟩ | ⟨f, hf, hkind⟩ | ⟨ha, hb⟩
    · exact Or.inl ⟨.double x, by rw [hx]; rfl⟩
    · exact Or.inr (Or.inl ⟨f, by rw [hf]; rfl, hkind⟩)
    · exact Or.inr (Or.inr (.power ha hb))

end Arithmetic

end Worksheet
