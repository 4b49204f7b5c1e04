-- Decimals as they are written. The text of a decimal is that of a literal,
-- which never is digits alone: there is a point or an exponent. Zeros at the
-- end are left out and others are put in, and the place of the point makes up
-- for both, so the literal has the value of the decimal.
import Worksheet.Proofs.Expression.Literal
import Worksheet.Proofs.Double.Shortest

namespace Worksheet

namespace Expression

/-! ## Digits -/

/-- The text is made of ASCII digits. -/
def AsciiDigits (ds : List Char) : Prop := ∀ c ∈ ds, c.isDigit = true

theorem asciiDigits_toDigits (n : Nat) : AsciiDigits (Nat.toDigits 10 n) :=
  fun _ hc => Nat.isDigit_of_mem_toDigits (by decide) (by decide) hc

theorem asciiDigits_zeros (k : Nat) : AsciiDigits (List.replicate k '0') := by
  intro c hc
  rw [List.eq_of_mem_replicate hc]
  rfl

namespace AsciiDigits

variable {ds es : List Char}

theorem append (hd : AsciiDigits ds) (he : AsciiDigits es) : AsciiDigits (ds ++ es) :=
  fun c hc => (List.mem_append.mp hc).elim (hd c) (he c)

theorem take (h : AsciiDigits ds) (k : Nat) : AsciiDigits (ds.take k) :=
  fun c hc => h c (List.mem_of_mem_take hc)

theorem drop (h : AsciiDigits ds) (k : Nat) : AsciiDigits (ds.drop k) :=
  fun c hc => h c (List.mem_of_mem_drop hc)

theorem isDecimalDigit (h : AsciiDigits ds) : ∀ c ∈ ds, Text.isDecimalDigit c = true :=
  fun c hc => Text.isDecimalDigit_of_isDigit (h c hc)

theorem isDigitRun (h : AsciiDigits ds) (hne : ds ≠ []) : Text.isDigitRun ds = true :=
  (isDigitRun_iff ds).mpr ⟨hne, h.isDecimalDigit⟩

theorem digitRunValue (h : AsciiDigits ds) : Text.digitRunValue ds = Nat.ofDigitChars 10 ds 0 := by
  have hsame : ∀ c ∈ ds, Text.asciiDigit c = id c := fun c hc =>
    Text.asciiDigit_of_isDigit (h c hc)
  unfold Text.digitRunValue
  rw [List.map_congr_left hsame, List.map_id]

end AsciiDigits

/-- The decimal of these digits. -/
def decimalOf (ds : List Char) (e : Int) : Decimal := ⟨Nat.ofDigitChars 10 ds 0, e⟩

/-- Zeros in front do not count. -/
theorem ofDigitChars_zeros_append (k : Nat) (ds : List Char) :
    Nat.ofDigitChars 10 (List.replicate k '0' ++ ds) 0 = Nat.ofDigitChars 10 ds 0 := by
  simp [Nat.ofDigitChars_append, Nat.ofDigitChars_replicate_zero]

/-- Each zero at the end is a factor of ten. -/
theorem value_decimalOf_append_zeros (ds : List Char) (k : Nat) (e : Int) :
    (decimalOf (ds ++ List.replicate k '0') e).value = (decimalOf ds (e + k)).value := by
  have hdigits : Nat.ofDigitChars 10 (ds ++ List.replicate k '0') 0 =
      Nat.ofDigitChars 10 ds 0 * 10 ^ k := by
    simp [Nat.ofDigitChars_append, Nat.ofDigitChars_replicate_zero, Nat.mul_comm]
  unfold decimalOf Decimal.value
  rw [hdigits, ten_zpow_add, zpow_natCast]
  push_cast
  ring

/-- What is left out at the end is zeros. -/
theorem exists_zeros (ds : List Char) :
    ∃ k, ds = Double.dropTrailingZeros ds ++ List.replicate k '0' := by
  have hzeros : ds.reverse.takeWhile (· == '0') =
      List.replicate (ds.reverse.takeWhile (· == '0')).length '0' :=
    List.eq_replicate_of_mem fun c hc => by simpa using List.mem_takeWhile_imp hc
  refine ⟨(ds.reverse.takeWhile (· == '0')).length, ?_⟩
  unfold Double.dropTrailingZeros
  rw [← List.reverse_replicate, ← hzeros, ← List.reverse_append, List.takeWhile_append_dropWhile,
    List.reverse_reverse]

/-! ## Exponents -/

/-- The exponent that is written with at least so many digits. -/
def Exponent.ofInt (width : Nat) (e : Int) : Exponent where
  mark := 'e'
  sign := [if e < 0 then '-' else '+']
  digits := List.replicate (width - (Nat.toDigits 10 e.natAbs).length) '0' ++
    Nat.toDigits 10 e.natAbs
  mark_eq := Or.inl rfl
  sign_eq := by
    split
    · exact Or.inr (Or.inr rfl)
    · exact Or.inr (Or.inl rfl)
  run := by
    apply ((asciiDigits_zeros _).append (asciiDigits_toDigits _)).isDigitRun
    simp [Nat.toDigits_ne_nil]

theorem Exponent.text_ofInt (width : Nat) (e : Int) :
    (ofInt width e).text = 'e' :: Double.exponentText width e := rfl

theorem Exponent.value_ofInt (width : Nat) (e : Int) : (ofInt width e).value = e := by
  have hdigits : Text.digitRunValue (ofInt width e).digits = e.natAbs := by
    unfold ofInt
    rw [((asciiDigits_zeros _).append (asciiDigits_toDigits _)).digitRunValue,
      ofDigitChars_zeros_append, Nat.ofDigitChars_ten_toDigits]
  unfold value
  rw [hdigits]
  unfold ofInt
  by_cases he : e < 0
  · simp only [he, if_true]
    omega
  · simp only [he, if_false]
    rw [if_neg (by decide)]
    omega

/-! ## Layouts -/

/-- The text is a literal of this value, and not of digits alone. -/
def WritesValue (cs : List Char) (q : Rat) : Prop :=
  ∃ l : Literal, l.text = cs ∧ l.decimal.value = q ∧
    ¬ (l.fraction = none ∧ l.exponent.isNone = true)

/-- Digits with a fraction. -/
theorem writesValue_fraction {ds fs : List Char} (hds : AsciiDigits ds) (hne : ds ≠ [])
    (hfs : AsciiDigits fs) :
    WritesValue (ds ++ '.' :: fs) (decimalOf (ds ++ fs) (-(fs.length : Int))).value := by
  refine ⟨⟨ds, some fs, none, hds.isDigitRun hne, ?_⟩, ?_, ?_, by simp⟩
  · simpa using hfs.isDecimalDigit
  · simp [Literal.text, Literal.fractionText, Literal.exponentText]
  · simp [Literal.decimal, decimalOf, (hds.append hfs).digitRunValue]

/-- Digits with an exponent; all but the first are the fraction. -/
theorem writesValue_exponent (width : Nat) {ds : List Char} (h : AsciiDigits ds) (hne : ds ≠ [])
    (e : Int) :
    WritesValue
      (ds.take 1 ++ (if ds.length ≤ 1 then [] else '.' :: ds.drop 1) ++
        'e' :: Double.exponentText width e)
      (decimalOf ds (e - (ds.length - 1 : Nat))).value := by
  have hfirst : ds.take 1 ≠ [] := by simpa using hne
  refine ⟨⟨ds.take 1, if ds.length ≤ 1 then none else some (ds.drop 1),
    some (.ofInt width e), (h.take 1).isDigitRun hfirst, ?_⟩, ?_, ?_, by simp⟩
  · split
    · simp
    · simpa using (h.drop 1).isDecimalDigit
  · unfold Literal.text Literal.fractionText Literal.exponentText
    by_cases hone : ds.length ≤ 1
    · simp only [if_pos hone, Exponent.text_ofInt]
    · simp only [if_neg hone, Exponent.text_ofInt]
  · have hfraction : (if ds.length ≤ 1 then none else some (ds.drop 1)).getD [] = ds.drop 1 := by
      split
      · rename_i hle
        exact (List.drop_eq_nil_of_le hle).symm
      · rfl
    unfold Literal.decimal decimalOf
    dsimp only
    rw [hfraction, List.take_append_drop, h.digitRunValue, Exponent.value_ofInt, List.length_drop]

/-- The point in front of the digits, with zeros between. -/
theorem writesValue_front {ds : List Char} (h : AsciiDigits ds) (k : Nat) :
    WritesValue ('0' :: '.' :: (List.replicate k '0' ++ ds))
      (decimalOf ds (-(k : Int) - ds.length)).value := by
  have hwrites := writesValue_fraction (asciiDigits_zeros 1) (by simp)
    ((asciiDigits_zeros k).append h)
  have hexponent : -((List.replicate k '0' ++ ds).length : Int) = -(k : Int) - ds.length := by
    rw [List.length_append, List.length_replicate]
    omega
  rw [hexponent, decimalOf, ofDigitChars_zeros_append, ofDigitChars_zeros_append] at hwrites
  exact hwrites

/-- The point behind the digits, with zeros between. -/
theorem writesValue_behind {ds : List Char} (h : AsciiDigits ds) (hne : ds ≠ []) (k : Nat) :
    WritesValue (ds ++ List.replicate k '0' ++ ['.', '0']) (decimalOf ds k).value := by
  have hwrites := writesValue_fraction (h.append (asciiDigits_zeros k)) (by simp [hne])
    (asciiDigits_zeros 1)
  have hexponent : -((List.replicate 1 '0').length : Int) + (1 : Nat) + k = k := by simp
  rw [value_decimalOf_append_zeros, value_decimalOf_append_zeros, hexponent] at hwrites
  exact hwrites

/-- The point between the digits. -/
theorem writesValue_between {ds : List Char} (h : AsciiDigits ds) {k : Nat} (hk : 0 < k)
    (hlt : k < ds.length) :
    WritesValue (ds.take k ++ '.' :: ds.drop k) (decimalOf ds ((k : Int) - ds.length)).value := by
  have htake : ds.take k ≠ [] := by
    rw [← List.length_pos_iff, List.length_take]
    omega
  have hwrites := writesValue_fraction (h.take k) htake (h.drop k)
  have hexponent : -((ds.drop k).length : Int) = (k : Int) - ds.length := by
    rw [List.length_drop]
    omega
  rwa [List.take_append_drop, hexponent] at hwrites

/-- However the digits are laid out, the point is in its place. -/
theorem writesValue_layOut (width : Nat) {ds : List Char} (h : AsciiDigits ds) (hne : ds ≠ [])
    (place : Int) :
    WritesValue (Double.layOut width ds place) (decimalOf ds (place - ds.length)).value := by
  have hlength : 0 < ds.length := List.length_pos_iff.mpr hne
  unfold Double.layOut
  by_cases hfar : place ≤ -4 ∨ 16 < place
  · have hexponent : place - 1 - (ds.length - 1 : Nat) = place - ds.length := by omega
    rw [if_pos hfar, ← hexponent]
    exact writesValue_exponent width h hne (place - 1)
  rw [if_neg hfar]
  by_cases hfront : place ≤ 0
  · have hplace : -((-place).toNat : Int) = place := by omega
    have hwrites := writesValue_front h (-place).toNat
    rw [if_pos hfront]
    rwa [hplace] at hwrites
  rw [if_neg hfront]
  by_cases hbehind : (ds.length : Int) ≤ place
  · have hplace : ((place.toNat - ds.length : Nat) : Int) = place - ds.length := by omega
    rw [if_pos hbehind, ← hplace]
    exact writesValue_behind h hne _
  · have hplace : (place.toNat : Int) = place := by omega
    have hwrites := writesValue_between h (k := place.toNat) (by omega) (by omega)
    rw [if_neg hbehind]
    rwa [hplace] at hwrites

/-! ## Decimals -/

/-- A decimal is written as a literal of its value. -/
theorem writesValue_decimalText (width : Nat) (d : Decimal) :
    WritesValue (Double.decimalText width d) d.value := by
  unfold Double.decimalText
  by_cases hzero : d.digits = 0
  · rw [if_pos hzero]
    have hdigit : AsciiDigits ['0'] := asciiDigits_zeros 1
    have hwrites := writesValue_fraction hdigit (by simp) hdigit
    simpa [Decimal.value, decimalOf, hzero, Nat.ofDigitChars] using hwrites
  · rw [if_neg hzero]
    dsimp only
    have hall := asciiDigits_toDigits d.digits
    have hvalue : decimalOf (Nat.toDigits 10 d.digits) d.exponent = d := by
      rw [decimalOf, Nat.ofDigitChars_ten_toDigits]
    obtain ⟨k, hk⟩ := exists_zeros (Nat.toDigits 10 d.digits)
    generalize Double.dropTrailingZeros (Nat.toDigits 10 d.digits) = ds at *
    rw [hk] at hall hvalue ⊢
    have hds : AsciiDigits ds := fun c hc => hall c (List.mem_append_left _ hc)
    have hne : ds ≠ [] := by
      rintro rfl
      have := congrArg Decimal.digits hvalue
      simp [decimalOf, Nat.ofDigitChars_replicate_zero] at this
      exact hzero this.symm
    have hexponent : ((ds ++ List.replicate k '0').length : Int) + d.exponent - ds.length =
        d.exponent + k := by
      rw [List.length_append, List.length_replicate]
      omega
    have hwrites := writesValue_layOut width hds hne
      ((ds ++ List.replicate k '0').length + d.exponent)
    rwa [hexponent, ← value_decimalOf_append_zeros, hvalue] at hwrites

end Expression

end Worksheet
