-- The two powers. The operator takes numbers, the function takes doubles. They
-- give the same double, or none, except in a few cases: a number is past the
-- doubles, zero is raised to minus infinity, a number below zero is raised to
-- what is not whole, or an infinity gets its sign from an exponent whose double
-- has another parity.
import Worksheet.Proofs.Expression.Operation
import Worksheet.Proofs.Function.Answers
import Worksheet.Proofs.Number.Overflow
import Worksheet.Proofs.Reference.Formula

namespace Worksheet

namespace Number

/-! ## The power of the function -/

/-- The power of the doubles of two numbers. -/
def calledPower (a b : Number) : Except Fault Double :=
  match a.toDouble with
  | .error f => .error f
  | .ok x =>
    match b.toDouble with
    | .error f => .error f
    | .ok y => Standard.powerOf x y

theorem calledPower_of_pastDoubles {a b : Number} (h : a.PastDoubles ∨ b.PastDoubles) :
    ∃ f, a.calledPower b = .error f := by
  unfold calledPower
  rcases toDouble_cases a with ⟨-, ha⟩ | ⟨hna, x, ha⟩
  · exact ⟨_, by rw [ha]⟩
  · have hb := toDouble_of_pastDoubles (h.resolve_left hna)
    exact ⟨_, by rw [ha, hb]⟩

theorem calledPower_of_toDouble {a b : Number} {x y : Double} (ha : a.toDouble = .ok x)
    (hb : b.toDouble = .ok y) : a.calledPower b = Standard.powerOf x y := by
  unfold calledPower
  rw [ha, hb]

/-- A base below zero takes no fraction. -/
theorem powerOf_of_fraction {x y : Double} (hx : x.lt (.zero false) = true)
    (hy : y.isIntegral = false) : Standard.powerOf x y = .error .negativeBase :=
  if_pos (by rw [hx, hy]; rfl)

/-- In any other case the function asks for the power first. -/
theorem powerOf_eq {x y : Double} (h : ¬ (x.lt (.zero false) = true ∧ y.isIntegral = false)) :
    Standard.powerOf x y =
      match x.pow y with
      | .ok r => .ok r
      | .error .overflow => .ok (.infinity (x.lt (.zero false) && y.isOdd))
      | .error .zeroToNegative => .error .zeroDoubleToNegative
      | .error .notReal => .error .complexPower :=
  if_neg (by simpa using h)

/-! ## Where the powers differ -/

/-- Both powers have the same double, or neither has one. -/
def SamePower (a b : Number) : Prop := (a.power b).toOption = (a.calledPower b).toOption

/-- The cases in which the operator and the function give different answers. -/
inductive PowersDiffer : Number → Number → Prop
  /-- The operator gives an infinity, the function has no double for the base. -/
  | largeBase {a b : Number} : a.PastDoubles → ¬ b.PastDoubles → PowersDiffer a b
  /-- The same with the exponent, except below zero, where the operator needs
  the double as well. -/
  | largeExponent {a b : Number} :
      b.PastDoubles → a.isNegative = false → ¬ (a.isZero = true ∧ b.isNegative = true) →
      PowersDiffer a b
  /-- The operator allows zero no exponent below zero, the function an infinite
  one. -/
  | zeroBase {a : Number} : a.isZero = true → PowersDiffer a (.double (.infinity true))
  /-- The function allows a base below zero no exponent that is not whole, the
  operator all but finite ones. -/
  | notFinite {a b : Number} {x y : Double} :
      a.toDouble = .ok x → b.toDouble = .ok y → a.isNegative = true → y.isIntegral = false →
      x.isFinite = false ∨ y.isFinite = false → PowersDiffer a b
  /-- The same where the power is too large. -/
  | largeFraction {a b : Number} {x y : Double} :
      a.toDouble = .ok x → b.toDouble = .ok y → a.isNegative = true → y.isIntegral = false →
      x.pow y = .error .overflow → PowersDiffer a b
  /-- The power of a base below zero is too large, and the exponent is rounded
  to another parity. -/
  | parity {a b : Number} {x y : Double} :
      a.toDouble = .ok x → b.toDouble = .ok y → a.isNegative = true →
      x.pow y = .error .overflow → b.isOdd ≠ y.isOdd → PowersDiffer a b

theorem not_samePower {a b : Number} {r : Double} {f : Fault}
    (h : a.power b = .ok r ∧ a.calledPower b = .error f ∨
      a.power b = .error f ∧ a.calledPower b = .ok r) : ¬ SamePower a b := by
  unfold SamePower
  rcases h with ⟨hp, hc⟩ | ⟨hp, hc⟩
  · rw [hp, hc]
    exact nofun
  · rw [hp, hc]
    exact nofun

/-- The two powers of a base below zero, with a double for the exponent. -/
theorem powers_of_negative {a b : Number} {x y : Double} (ha : a.toDouble = .ok x)
    (hb : b.toDouble = .ok y) (hneg : a.isNegative = true) :
    a.power b =
      (match x.pow y with
        | .ok r => .ok r
        | .error .overflow => .ok (.infinity (y.isIntegral && b.isOdd))
        | .error .zeroToNegative => .error .zeroDoubleToNegative
        | .error .notReal => .error .complexPower) ∧
      a.calledPower b = Standard.powerOf x y ∧ x.lt (.zero false) = true := by
  have hzero : ¬ (a.isZero = true ∧ b.isNegative = true) := by
    rw [isZero_of_isNegative hneg]
    exact fun h => Bool.false_ne_true h.1
  refine ⟨?_, calledPower_of_toDouble ha hb, (sign_of_toDouble ha).2.symm.trans hneg⟩
  rw [power_of_toDouble hzero ha hb, saturate_of_negative hneg, hb]
  rfl

theorem PowersDiffer.not_samePower {a b : Number} (h : PowersDiffer a b) : ¬ SamePower a b := by
  cases h with
  | largeBase ha hb =>
    obtain ⟨f, hf⟩ := calledPower_of_pastDoubles (b := b) (Or.inl ha)
    have hzero := isZero_of_pastDoubles ha
    have hpower : a.power b = a.saturate b := power_of_pastDoubles (by simp [hzero]) (Or.inl ha)
    obtain ⟨s, hs⟩ := (saturate_cases a b).resolve_right fun h => hb h.2
    exact Number.not_samePower (Or.inl ⟨hpower.trans hs, hf⟩)
  | largeExponent hb ha hzero =>
    obtain ⟨f, hf⟩ := calledPower_of_pastDoubles (a := a) (Or.inr hb)
    have hpower := power_of_pastDoubles hzero (Or.inr hb)
    exact Number.not_samePower (Or.inl ⟨hpower.trans (saturate_of_nonnegative ha b), hf⟩)
  | zeroBase ha =>
    have hneg : isNegative (.double (.infinity true)) = true := by decide
    have hpower : a.power (.double (.infinity true)) = .error .zeroToNegativePower :=
      if_pos (by rw [ha, hneg]; rfl)
    rcases toDouble_cases a with ⟨hpast, -⟩ | ⟨-, x, hx⟩
    · rw [isZero_of_pastDoubles hpast] at ha
      cases ha
    · have hxzero := (sign_of_toDouble hx).1.symm.trans ha
      have hcalled := calledPower_of_toDouble hx (b := .double (.infinity true)) rfl
      obtain ⟨r, hr⟩ := Double.exists_pow (x := x) (y := .infinity true) (Or.inr rfl)
      rw [powerOf_eq (by simp [Double.lt_zero, hxzero]), hr] at hcalled
      exact Number.not_samePower (Or.inr ⟨hpower, hcalled⟩)
  | notFinite ha hb hneg hwhole hfinite =>
    obtain ⟨hpower, hcalled, hlt⟩ := powers_of_negative ha hb hneg
    obtain ⟨r, hr⟩ := Double.exists_pow hfinite
    rw [hr] at hpower
    rw [powerOf_of_fraction hlt hwhole] at hcalled
    exact Number.not_samePower (Or.inl ⟨hpower, hcalled⟩)
  | largeFraction ha hb hneg hwhole hover =>
    obtain ⟨hpower, hcalled, hlt⟩ := powers_of_negative ha hb hneg
    rw [hover] at hpower
    rw [powerOf_of_fraction hlt hwhole] at hcalled
    exact Number.not_samePower (Or.inl ⟨hpower, hcalled⟩)
  | parity ha hb hneg hover hodd =>
    rename_i x y
    obtain ⟨hpower, hcalled, hlt⟩ := powers_of_negative ha hb hneg
    rw [hover] at hpower
    cases hwhole : y.isIntegral with
    | false =>
      rw [powerOf_of_fraction hlt hwhole] at hcalled
      exact Number.not_samePower (Or.inl ⟨hpower, hcalled⟩)
    | true =>
      rw [powerOf_eq (by simp [hwhole]), hover, hlt] at hcalled
      unfold SamePower
      rw [hpower, hcalled, hwhole]
      simpa [Except.toOption] using hodd

theorem samePower_of_errors {a b : Number} {f g : Fault} (hp : a.power b = .error f)
    (hc : a.calledPower b = .error g) : SamePower a b := by
  unfold SamePower
  rw [hp, hc]
  rfl

/-- Zero to a number below zero is a fault, unless the exponent is infinite. -/
theorem samePower_of_zero {a b : Number} (ha : a.isZero = true) (hb : b.isNegative = true) :
    SamePower a b ∨ PowersDiffer a b := by
  have hpower : a.power b = .error .zeroToNegativePower := if_pos (by rw [ha, hb]; rfl)
  rcases toDouble_cases a with ⟨hpast, -⟩ | ⟨-, x, hx⟩
  · rw [isZero_of_pastDoubles hpast] at ha
    cases ha
  rcases toDouble_cases b with ⟨hpast, -⟩ | ⟨-, y, hy⟩
  · obtain ⟨f, hf⟩ := calledPower_of_pastDoubles (a := a) (Or.inr hpast)
    exact Or.inl (samePower_of_errors hpower hf)
  have hxzero := (sign_of_toDouble hx).1.symm.trans ha
  have hcalled := calledPower_of_toDouble hx hy
  rw [powerOf_eq (by simp [Double.lt_zero, hxzero])] at hcalled
  rw [(sign_of_toDouble hy).2, Double.lt_zero, Bool.and_eq_true, Bool.not_eq_true'] at hb
  cases hfinite : y.isFinite with
  | true =>
    have hxfinite : x.isFinite = true := by
      cases x with
      | finite s m e h => rfl
      | _ => cases hxzero
    rw [Double.pow_of_finite hxfinite hfinite hb.2, if_pos hxzero, if_pos hb.1] at hcalled
    exact Or.inl (samePower_of_errors hpower hcalled)
  | false =>
    cases b with
    | int n =>
      rw [(eq_ofInt_of_toDouble hy).2] at hfinite
      cases hfinite
    | double z =>
      cases hy
      cases y with
      | nan => cases hb.1
      | infinity s =>
        obtain rfl : s = true := hb.1
        exact Or.inr (.zeroBase ha)
      | finite s m e h => cases hfinite

/-- The powers of a base below zero. -/
theorem samePower_of_negative {a b : Number} {x y : Double} (ha : a.toDouble = .ok x)
    (hb : b.toDouble = .ok y) (hneg : a.isNegative = true) : SamePower a b ∨ PowersDiffer a b := by
  obtain ⟨hpower, hcalled, hlt⟩ := powers_of_negative ha hb hneg
  cases hwhole : y.isIntegral with
  | false =>
    by_cases hfinite : x.isFinite = true ∧ y.isFinite = true
    · rcases Double.pow_of_fraction hlt hwhole hfinite.1 hfinite.2 with hpow | hpow
      · exact Or.inr (.largeFraction ha hb hneg hwhole hpow)
      · rw [hpow] at hpower
        rw [powerOf_of_fraction hlt hwhole] at hcalled
        exact Or.inl (samePower_of_errors hpower hcalled)
    · rw [not_and_or, Bool.not_eq_true, Bool.not_eq_true] at hfinite
      exact Or.inr (.notFinite ha hb hneg hwhole hfinite)
  | true =>
    rw [powerOf_eq (by simp [hwhole]), hlt] at hcalled
    rw [hwhole] at hpower
    by_cases hdiffer : x.pow y = .error .overflow ∧ b.isOdd ≠ y.isOdd
    · exact Or.inr (.parity ha hb hneg hdiffer.1 hdiffer.2)
    · left
      unfold SamePower
      rw [hpower, hcalled]
      split
      · rfl
      · rename_i hover
        rw [not_and, not_not] at hdiffer
        rw [hdiffer hover]
      · rfl
      · rfl

/-- The powers of zero and of a base above zero, with a double for the
exponent. -/
theorem samePower_of_nonnegative {a b : Number} {x y : Double} (ha : a.toDouble = .ok x)
    (hb : b.toDouble = .ok y) (hneg : a.isNegative = false)
    (hzero : ¬ (a.isZero = true ∧ b.isNegative = true)) : SamePower a b := by
  have hpower := power_of_toDouble hzero ha hb
  have hcalled := calledPower_of_toDouble ha hb
  have hlt := (sign_of_toDouble ha).2.symm.trans hneg
  rw [saturate_of_nonnegative hneg] at hpower
  rw [powerOf_eq (by simp [hlt]), hlt] at hcalled
  unfold SamePower
  rw [hpower, hcalled]
  cases x.pow y with
  | ok r => rfl
  | error f => cases f <;> rfl

theorem samePower_or_powersDiffer (a b : Number) : SamePower a b ∨ PowersDiffer a b := by
  by_cases hzero : a.isZero = true ∧ b.isNegative = true
  · exact samePower_of_zero hzero.1 hzero.2
  rcases toDouble_cases b with ⟨hpast, hb⟩ | ⟨hnb, y, hb⟩
  · -- without a double for the exponent the operator needs a base above zero
    cases hneg : a.isNegative with
    | false => exact Or.inr (.largeExponent hpast hneg hzero)
    | true =>
      have hpower := power_of_pastDoubles hzero (Or.inr hpast)
      rw [saturate_of_negative hneg, hb] at hpower
      obtain ⟨f, hf⟩ := calledPower_of_pastDoubles (a := a) (Or.inr hpast)
      exact Or.inl (samePower_of_errors hpower hf)
  · rcases toDouble_cases a with ⟨hpast, -⟩ | ⟨-, x, ha⟩
    · exact Or.inr (.largeBase hpast hnb)
    · cases hneg : a.isNegative with
      | false => exact Or.inl (samePower_of_nonnegative ha hb hneg hzero)
      | true => exact samePower_of_negative ha hb hneg

/-- Outside the cases in which they differ the two powers are the same. -/
theorem samePower_iff (a b : Number) : SamePower a b ↔ ¬ PowersDiffer a b :=
  ⟨fun h hd => hd.not_samePower h, (samePower_or_powersDiffer a b).resolve_right⟩

end Number

/-! ## Calls of the function -/

/-- The function on two numbers. -/
theorem power_of_numbers {u v : Value} {a b : Number} (hu : u.number? = some a)
    (hv : v.number? = some b) : Standard.power [u, v] = (a.calledPower b).map Value.double := by
  unfold Standard.power twoDoubles Number.calledPower
  rw [if_neg (by simp), Value.doublesOf, Value.doublesOf, Value.doublesOf,
    doubles_of_number? hu, doubles_of_number? hv]
  cases a.toDouble with
  | error f => rfl
  | ok x =>
    cases b.toDouble with
    | error f => rfl
    | ok y => rfl

/-- The function has two names, in any case. -/
theorem registry_power {name : String}
    (h : Text.upper name = "POW" ∨ Text.upper name = "POWER") :
    Standard.registry.get? name = some Standard.power := by
  unfold Registry.get?
  rcases h with h | h
  · rw [h]
    rfl
  · rw [h]
    rfl

theorem toOption_applyFunction (name : String) (f : Function) (args : List Value) :
    (applyFunction name f args).toOption = (f args).toOption := by
  unfold applyFunction
  cases f args <;> rfl

namespace Expression

variable {c : Calculator} {l r : Expression} {u v : Value} {a b : Number}

theorem toOption_eval_power (hl : l.eval c = .ok u) (hr : r.eval c = .ok v)
    (hu : u.number? = some a) (hv : v.number? = some b) :
    ((Expression.binary (.arithmetic .power) l r).eval c).toOption =
      (a.power b).toOption.map Value.double := by
  rw [eval_binary _ hl hr, apply_arithmetic .power hu hv]
  unfold Arithmetic.apply
  dsimp only
  cases a.power b <;> rfl

theorem toOption_eval_call {name : String} (hc : c.registry = Standard.registry)
    (hname : Text.upper name = "POW" ∨ Text.upper name = "POWER")
    (hl : l.eval c = .ok u) (hr : r.eval c = .ok v)
    (hu : u.number? = some a) (hv : v.number? = some b) :
    ((Expression.call name [l, r]).eval c).toOption =
      (a.calledPower b).toOption.map Value.double := by
  have hargs : evalAll c [l, r] = .ok [u, v] := by
    rw [evalAll, hl, evalAll, hr, evalAll]
  rw [eval, hc, registry_power hname, hargs]
  dsimp only
  rw [toOption_applyFunction, power_of_numbers hu hv]
  cases a.calledPower b <;> rfl

/-! ## The law -/

/-- A text is read as the power of two operands, another one as a call of the
power with the same operands, and these are numbers. Each of the two has a
double for its value, or a fault. They have the same double or both a fault if
and only if the numbers are in none of the cases in which the powers differ. -/
theorem powers_agree_iff (hc : c.registry = Standard.registry) {name s t : String}
    (hname : Text.upper name = "POW" ∨ Text.upper name = "POWER")
    (hs : ofText s = .binary (.arithmetic .power) l r) (ht : ofText t = .call name [l, r])
    (hl : l.eval c = .ok u) (hr : r.eval c = .ok v)
    (hu : u.number? = some a) (hv : v.number? = some b) :
    (∀ w, c.evaluate s = .ok w ∨ c.evaluate t = .ok w → ∃ x, w = .double x) ∧
      ((c.evaluate s).toOption = (c.evaluate t).toOption ↔ ¬ Number.PowersDiffer a b) := by
  have hpower := toOption_eval_power hl hr hu hv
  have hcalled := toOption_eval_call hc hname hl hr hu hv
  rw [evaluate_of_ofText hs nofun, evaluate_of_ofText ht nofun]
  constructor
  · intro w hw
    rcases hw with hw | hw
    · rw [hw] at hpower
      obtain ⟨x, -, hx⟩ := Option.map_eq_some_iff.mp hpower.symm
      exact ⟨x, hx.symm⟩
    · rw [hw] at hcalled
      obtain ⟨x, -, hx⟩ := Option.map_eq_some_iff.mp hcalled.symm
      exact ⟨x, hx.symm⟩
  · rw [hpower, hcalled, ← Number.samePower_iff]
    exact (Option.map_injective fun x y h => Value.double.inj h).eq_iff

/-- Two small integers, whose powers are the same. -/
theorem two_to_the_third :
    let l := Expression.number (.int 2)
    let r := Expression.number (.int 3)
    ofText "2 ^ 3" = .binary (.arithmetic .power) l r ∧ ofText "pow(2, 3)" = .call "pow" [l, r] ∧
      (Calculator.builtIn.evaluate "2 ^ 3").toOption =
        (Calculator.builtIn.evaluate "pow(2, 3)").toOption := by
  intro l r
  have hspace : plain.Spaces [' '] := by decide
  have hl : Renders plain .primary ['2'] l := renders_ofNat (n := 2) (by decide)
  have hr : Renders plain .primary ['3'] r := renders_ofNat (n := 3) (by decide)
  have hs : ofText "2 ^ 3" = .binary (.arithmetic .power) l r :=
    ofText_of_renders (Renders.binary (.arithmetic .power) hspace hspace (hl.of_primary _)
      (hr.of_primary _))
  have ht : ofText "pow(2, 3)" = .call "pow" [l, r] := by
    have hname : IsName ['p', 'o', 'w'] := ⟨'p', ['o', 'w'], rfl, by decide, by decide⟩
    let args : List Argument := [⟨[], ['2'], [], l⟩, ⟨[' '], ['3'], [], r⟩]
    have hspaces : ∀ a ∈ args, plain.Spaces a.before ∧ plain.Spaces a.after := by
      simp [args, spaces_nil, hspace]
    have hrenders : ∀ a ∈ args, Renders plain .comparison a.text a.tree := by
      simp [args, hl.of_primary, hr.of_primary]
    exact ofText_of_renders
      (Renders.call (g := plain) hname spaces_nil (by simp [args]) hspaces hrenders)
  have hdiffer : ¬ Number.PowersDiffer (.int 2) (.int 3) := by
    have hdoubles : Number.toDouble (.int 2) ≠ .error .integerTooLarge ∧
        Number.toDouble (.int 3) ≠ .error .integerTooLarge := by decide +kernel
    have hpositive : (Number.int 2).isNegative ≠ true := by decide
    intro h
    cases h with
    | largeBase hpast => exact hdoubles.1 (Number.toDouble_of_pastDoubles hpast)
    | largeExponent hpast => exact hdoubles.2 (Number.toDouble_of_pastDoubles hpast)
    | notFinite _ _ hneg => exact hpositive hneg
    | largeFraction _ _ hneg => exact hpositive hneg
    | parity _ _ hneg => exact hpositive hneg
  exact ⟨hs, ht, (powers_agree_iff rfl (Or.inl (by decide)) hs ht (by rw [eval]) (by rw [eval])
    rfl rfl).2.mpr hdiffer⟩

/-- Minus two to infinity. The operator has a value, and the function rejects
the exponent. -/
theorem minus_two_to_infinity :
    Calculator.builtIn.evaluate "(-2) ^ Infinity" = .ok (.double (.infinity false)) ∧
      Calculator.builtIn.evaluate "POWER(-2, Infinity)" =
        .error (.callFailed "POWER" .negativeBase) := by
  decide +kernel

end Expression

end Worksheet
