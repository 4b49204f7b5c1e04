-- Numbers and constants as they are written. A literal is a run of digits,
-- perhaps with a fraction, perhaps with an exponent; a constant is a name in
-- any case. Both are words: no operator ends in them, except for the sign of
-- an exponent, which is known by the mark and the digit before it.
import Worksheet.Proofs.Expression.Scan
import Worksheet.Proofs.Double.Reading
import Worksheet.Expression.Tree

namespace Worksheet

namespace Expression

/-! ## Words -/

/-- The characters that stand in no number and in no constant. -/
def separators : List Char := ['(', ')', ',', '*', '/', '%', '^', '>', '<', '=', '!']

/-- The character writes something: it is no blank and no separator. -/
def Writes (c : Char) : Prop := Text.isBlank c = false ∧ c ∉ separators

/-- A sign stands in an exponent only. -/
def SignsInExponents (before cs : List Char) : Prop :=
  Outside (fun b c => c = '+' ∨ c = '-' → endsAtExponent b = true) 0 before cs

/-- A text without operators. -/
structure Word (cs : List Char) : Prop where
  writes : ∀ c ∈ cs, Writes c
  first : ∃ c rest, cs = c :: rest ∧ c ≠ '+' ∧ c ≠ '-'
  last : ∃ init c, cs = init ++ [c] ∧ c ≠ '+' ∧ c ≠ '-'
  signs : ∀ before, SignsInExponents before cs
  ending : ∀ before, isSignPosition before = true →
    endsAtExponent (cs.reverse ++ before) = false

theorem Word.noBrackets {cs : List Char} (h : Word cs) : NoBrackets cs := fun c hc =>
  weight_eq_zero_of (p := fun c => c ∉ separators) (h.writes c hc).2 (by decide) (by decide)

theorem writes_of_isDecimalDigit {c : Char} (h : Text.isDecimalDigit c = true) : Writes c := by
  refine ⟨?_, fun hsep => ?_⟩
  · cases hb : Text.isBlank c with
    | false => rfl
    | true =>
      have hno := Text.looksLikeDigit_of_isBlank hb
      rw [Text.looksLikeDigit_of_isDecimalDigit h] at hno
      cases hno
  · have hall : ∀ x ∈ separators, Text.isDecimalDigit x = false := by decide
    rw [hall c hsep] at h
    cases h

theorem ne_sign_of_isDecimalDigit {c : Char} (h : Text.isDecimalDigit c = true) :
    c ≠ '+' ∧ c ≠ '-' := by
  constructor
  · rintro rfl
    exact absurd h (by decide)
  · rintro rfl
    exact absurd h (by decide)

/-! ## Literals -/

/-- An exponent: its mark, perhaps a sign, and digits. -/
structure Exponent where
  mark : Char
  sign : List Char
  digits : List Char
  mark_eq : mark = 'e' ∨ mark = 'E'
  sign_eq : sign = [] ∨ sign = ['+'] ∨ sign = ['-']
  run : Text.isDigitRun digits = true

def Exponent.text (x : Exponent) : List Char := x.mark :: (x.sign ++ x.digits)

def Exponent.value (x : Exponent) : Int :=
  if x.sign = ['-'] then -(Text.digitRunValue x.digits : Int) else Text.digitRunValue x.digits

/-- A literal: digits, perhaps a fraction, and perhaps an exponent. -/
structure Literal where
  whole : List Char
  fraction : Option (List Char)
  exponent : Option Exponent
  run : Text.isDigitRun whole = true
  digits : ∀ ds ∈ fraction, ∀ c ∈ ds, Text.isDecimalDigit c = true

namespace Literal

/-- The point and the fraction. -/
def fractionText (l : Literal) : List Char :=
  match l.fraction with
  | none => []
  | some ds => '.' :: ds

def exponentText (l : Literal) : List Char :=
  match l.exponent with
  | none => []
  | some x => x.text

def text (l : Literal) : List Char := l.whole ++ l.fractionText ++ l.exponentText

/-- The decimal that a literal writes. -/
def decimal (l : Literal) : Decimal :=
  let fraction := l.fraction.getD []
  let exponent : Int := match l.exponent with
    | none => 0
    | some x => x.value
  ⟨Text.digitRunValue (l.whole ++ fraction), exponent - (fraction.length : Int)⟩

/-- The number that a literal writes. Digits alone are an integer, unless
they are too many. -/
def number (l : Literal) : Number :=
  if l.fraction = none ∧ l.exponent.isNone ∧ l.whole.length ≤ Fault.digitLimit then
    .int (Text.digitRunValue l.whole)
  else .double (l.decimal.toDouble false)

end Literal

theorem isDigitRun_iff (cs : List Char) :
    Text.isDigitRun cs = true ↔ cs ≠ [] ∧ ∀ c ∈ cs, Text.isDecimalDigit c = true := by
  unfold Text.isDigitRun
  simp

/-! ## Reading a literal -/

theorem isDigit_of_map_asciiDigit {ds : List Char}
    (h : ∀ c ∈ ds, Text.isDecimalDigit c = true) :
    ∀ c ∈ ds.map Text.asciiDigit, c.isDigit = true := by
  intro c hc
  obtain ⟨d, hd, rfl⟩ := List.mem_map.mp hc
  exact Text.isDigit_asciiDigit (h d hd)

namespace Exponent

theorem digits_ne_nil (x : Exponent) : x.digits ≠ [] := ((isDigitRun_iff _).mp x.run).1

theorem isDecimalDigit (x : Exponent) : ∀ c ∈ x.digits, Text.isDecimalDigit c = true :=
  ((isDigitRun_iff _).mp x.run).2

/-- The mark and the sign of an exponent are ASCII. -/
theorem map_text (x : Exponent) :
    x.text.map Text.asciiDigit = x.mark :: (x.sign ++ x.digits.map Text.asciiDigit) := by
  have hmark : Text.asciiDigit x.mark = x.mark := by
    rcases x.mark_eq with h | h
    · rw [h]
      decide
    · rw [h]
      decide
  have hsign : x.sign.map Text.asciiDigit = x.sign := by
    rcases x.sign_eq with h | h | h
    · rw [h]
      rfl
    · rw [h]
      decide
    · rw [h]
      decide
  unfold text
  rw [List.map_cons, List.map_append, hmark, hsign]

theorem readExponent?_text (x : Exponent) :
    Double.readExponent? (x.text.map Text.asciiDigit) = some x.value := by
  have hdigits := isDigit_of_map_asciiDigit x.isDecimalDigit
  have hne : x.digits.map Text.asciiDigit ≠ [] := by simpa using x.digits_ne_nil
  have hall : (x.digits.map Text.asciiDigit).all Char.isDigit = true :=
    List.all_eq_true.mpr hdigits
  obtain ⟨d, ds, hd⟩ := List.exists_cons_of_ne_nil hne
  have hfirst : d.isDigit = true := hdigits d (by rw [hd]; simp)
  have hsign : Double.takeSign (x.sign ++ x.digits.map Text.asciiDigit) =
      (decide (x.sign = ['-']), x.digits.map Text.asciiDigit) := by
    rcases x.sign_eq with h | h | h
    · rw [h, List.nil_append, hd]
      unfold Double.takeSign
      split
      · rename_i heq
        cases heq
        exact absurd hfirst (by decide)
      · rename_i heq
        cases heq
        exact absurd hfirst (by decide)
      · rfl
    · rw [h]
      rfl
    · rw [h]
      rfl
  rw [map_text, Double.readExponent?, hsign]
  dsimp only
  rw [if_pos ⟨x.mark_eq, hne, hall⟩]
  unfold value Text.digitRunValue
  simp only [decide_eq_true_eq]

end Exponent

namespace Literal

theorem whole_ne_nil (l : Literal) : l.whole ≠ [] := ((isDigitRun_iff _).mp l.run).1

theorem isDecimalDigit (l : Literal) : ∀ c ∈ l.whole, Text.isDecimalDigit c = true :=
  ((isDigitRun_iff _).mp l.run).2

theorem isDecimalDigit_fraction (l : Literal) :
    ∀ c ∈ l.fraction.getD [], Text.isDecimalDigit c = true := by
  cases hf : l.fraction with
  | none => simp
  | some ds => exact l.digits ds hf

/-- What follows the digits of a literal is no digit and no point. -/
theorem head?_exponentText (l : Literal) :
    ∀ c ∈ (l.exponentText.map Text.asciiDigit).head?, c.isDigit = false ∧ c ≠ '.' := by
  unfold exponentText
  cases l.exponent with
  | none => simp
  | some x =>
    intro c hc
    dsimp only at hc
    rw [x.map_text, List.head?_cons, Option.mem_def, Option.some.injEq] at hc
    subst hc
    rcases x.mark_eq with h | h
    · rw [h]
      decide
    · rw [h]
      decide

theorem readExponent?_exponentText (l : Literal) :
    Double.readExponent? (l.exponentText.map Text.asciiDigit) =
      some (match l.exponent with | none => 0 | some x => x.value) := by
  unfold exponentText
  cases l.exponent with
  | none => rfl
  | some x => exact x.readExponent?_text

end Literal

theorem takeWhile_isDigit_append {ds : List Char} (tail : List Char)
    (hds : ∀ c ∈ ds, c.isDigit = true)
    (htail : ∀ c ∈ tail.head?, c.isDigit = false) :
    (ds ++ tail).takeWhile Char.isDigit = ds ∧ (ds ++ tail).dropWhile Char.isDigit = tail := by
  have hstop : tail.takeWhile Char.isDigit = [] ∧ tail.dropWhile Char.isDigit = tail := by
    cases tail with
    | nil => exact ⟨rfl, rfl⟩
    | cons c tail =>
      have hc := htail c rfl
      simp [hc]
  rw [List.takeWhile_append_of_pos hds, List.dropWhile_append_of_pos hds, hstop.1, hstop.2,
    List.append_nil]
  exact ⟨rfl, rfl⟩

/-- A decimal without a point. -/
theorem readDecimal?_whole {ds tail : List Char} {e : Int} (hne : ds ≠ [])
    (hds : ∀ c ∈ ds, c.isDigit = true) (htail : ∀ c ∈ tail.head?, c.isDigit = false ∧ c ≠ '.')
    (he : Double.readExponent? tail = some e) :
    Double.readDecimal? (ds ++ tail) = some ⟨Nat.ofDigitChars 10 ds 0, e⟩ := by
  obtain ⟨htake, hdrop⟩ := takeWhile_isDigit_append tail hds fun c hc => (htail c hc).1
  have hempty : ds.isEmpty = false := by simpa using hne
  have hpoint : ∀ r, tail ≠ '.' :: r := by
    rintro r rfl
    exact (htail '.' rfl).2 rfl
  unfold Double.readDecimal?
  rw [htake, hdrop]
  dsimp only
  split
  · exact absurd rfl (hpoint _)
  · rw [hempty, he]
    simp

/-- A decimal with a point. -/
theorem readDecimal?_fraction {ds fs tail : List Char} {e : Int} (hne : ds ≠ [])
    (hds : ∀ c ∈ ds, c.isDigit = true) (hfs : ∀ c ∈ fs, c.isDigit = true)
    (htail : ∀ c ∈ tail.head?, c.isDigit = false ∧ c ≠ '.')
    (he : Double.readExponent? tail = some e) :
    Double.readDecimal? (ds ++ '.' :: (fs ++ tail)) =
      some ⟨Nat.ofDigitChars 10 (ds ++ fs) 0, e - (fs.length : Int)⟩ := by
  obtain ⟨htake, hdrop⟩ := takeWhile_isDigit_append ('.' :: (fs ++ tail)) hds (by simp)
  obtain ⟨htake', hdrop'⟩ := takeWhile_isDigit_append tail hfs fun c hc => (htail c hc).1
  have hempty : ds.isEmpty = false := by simpa using hne
  unfold Double.readDecimal?
  rw [htake, hdrop]
  simp only [htake', hdrop', hempty, he]
  simp

namespace Literal

/-- The digits of a literal, in ASCII, are read as its decimal. -/
theorem readDecimal?_text (l : Literal) :
    Double.readDecimal? (l.text.map Text.asciiDigit) = some l.decimal := by
  have hwhole := isDigit_of_map_asciiDigit l.isDecimalDigit
  have hfrac := isDigit_of_map_asciiDigit l.isDecimalDigit_fraction
  have hne : l.whole.map Text.asciiDigit ≠ [] := by simpa using l.whole_ne_nil
  have htail := l.head?_exponentText
  have hread := l.readExponent?_exponentText
  have hpoint : Text.asciiDigit '.' = '.' := by decide
  unfold text decimal fractionText Text.digitRunValue
  cases hf : l.fraction with
  | none =>
    dsimp only
    rw [List.append_nil, List.map_append, readDecimal?_whole hne hwhole htail hread]
    simp
  | some ds =>
    rw [hf, Option.getD_some] at hfrac
    dsimp only
    rw [List.append_assoc, List.map_append, List.cons_append, List.map_cons, List.map_append,
      hpoint, readDecimal?_fraction hne hwhole hfrac htail hread]
    simp

/-! ## Literals are words -/

/-- The characters of a literal. -/
theorem mem_text {l : Literal} {c : Char} (h : c ∈ l.text) :
    Text.isDecimalDigit c = true ∨ c ∈ ['.', 'e', 'E', '+', '-'] := by
  unfold text fractionText exponentText at h
  rw [List.mem_append, List.mem_append] at h
  rcases h with (h | h) | h
  · exact Or.inl (l.isDecimalDigit c h)
  · cases hf : l.fraction with
    | none => simp [hf] at h
    | some ds =>
      rw [hf] at h
      rcases List.mem_cons.mp h with rfl | h
      · exact Or.inr (by decide)
      · exact Or.inl (l.digits ds hf c h)
  · cases hx : l.exponent with
    | none => simp [hx] at h
    | some x =>
      rw [hx] at h
      unfold Exponent.text at h
      rw [List.mem_cons, List.mem_append] at h
      rcases h with rfl | h | h
      · rcases x.mark_eq with hm | hm
        · exact Or.inr (by rw [hm]; decide)
        · exact Or.inr (by rw [hm]; decide)
      · rcases x.sign_eq with hs | hs | hs
        · simp [hs] at h
        · rw [hs, List.mem_singleton] at h
          exact Or.inr (by rw [h]; decide)
        · rw [hs, List.mem_singleton] at h
          exact Or.inr (by rw [h]; decide)
      · exact Or.inl (x.isDecimalDigit c h)

theorem writes_of_mem_text {l : Literal} {c : Char} (h : c ∈ l.text) : Writes c := by
  rcases mem_text h with hd | hc
  · exact writes_of_isDecimalDigit hd
  · have hall : ∀ x ∈ ['.', 'e', 'E', '+', '-'], Text.isBlank x = false ∧ x ∉ separators := by
      decide
    exact hall c hc

/-- The last character of a literal is a digit or the point. -/
theorem exists_last (l : Literal) :
    ∃ init c, l.text = init ++ [c] ∧ (Text.isDecimalDigit c = true ∨ c = '.') := by
  have hrun : ∀ {ds : List Char}, ds ≠ [] → (∀ c ∈ ds, Text.isDecimalDigit c = true) →
      ∃ init c, ds = init ++ [c] ∧ Text.isDecimalDigit c = true := by
    intro ds hne hds
    rcases List.eq_nil_or_concat ds with h | ⟨init, c, rfl⟩
    · exact absurd h hne
    · exact ⟨init, c, by simp, hds c (by simp)⟩
  unfold text fractionText exponentText
  cases l.exponent with
  | some x =>
    obtain ⟨init, c, he, hc⟩ := hrun x.digits_ne_nil x.isDecimalDigit
    refine ⟨l.whole ++ l.fractionText ++ x.mark :: (x.sign ++ init), c, ?_, Or.inl hc⟩
    unfold Exponent.text fractionText
    simp [he]
  | none =>
    dsimp only
    rw [List.append_nil]
    cases hf : l.fraction with
    | none =>
      obtain ⟨init, c, he, hc⟩ := hrun l.whole_ne_nil l.isDecimalDigit
      exact ⟨init, c, by rw [List.append_nil, he], Or.inl hc⟩
    | some ds =>
      by_cases hds : ds = []
      · subst hds
        exact ⟨l.whole, '.', rfl, Or.inr rfl⟩
      · obtain ⟨init, c, he, hc⟩ := hrun hds (l.digits ds hf)
        refine ⟨l.whole ++ '.' :: init, c, ?_, Or.inl hc⟩
        rw [he]
        simp

end Literal

theorem endsAtExponent_cons {c : Char} {before : List Char} (he : c ≠ 'e') (hE : c ≠ 'E') :
    endsAtExponent (c :: before) = false := by
  cases before with
  | nil => rfl
  | cons d before => simp [endsAtExponent, he, hE]

theorem endsAtExponent_of_isBlank {b : Char} (before : List Char) (h : Text.isBlank b = true) :
    endsAtExponent (b :: before) = false := by
  apply endsAtExponent_cons
  · rintro rfl
    exact absurd h (by decide)
  · rintro rfl
    exact absurd h (by decide)

theorem signsInExponents_of_forall {before cs : List Char} (h : ∀ c ∈ cs, c ≠ '+' ∧ c ≠ '-') :
    SignsInExponents before cs := by
  apply outside_of_forall
  intro c hc b hs
  rcases hs with rfl | rfl
  · exact absurd rfl (h '+' hc).1
  · exact absurd rfl (h '-' hc).2

namespace Literal

/-- The digits before the exponent have a digit or a point at their end. -/
theorem endsAtExponent_mark (l : Literal) (x : Exponent) (before : List Char) :
    endsAtExponent (x.mark :: ((l.whole ++ l.fractionText).reverse ++ before)) = true := by
  have hlast := exists_last { l with exponent := none }
  unfold text exponentText at hlast
  obtain ⟨init, c, he, hc⟩ := hlast
  dsimp only at he
  rw [List.append_nil] at he
  have hfront : l.whole ++ l.fractionText = init ++ [c] := he
  rw [hfront, List.reverse_append, List.reverse_singleton, List.singleton_append,
    List.cons_append]
  unfold endsAtExponent
  dsimp only
  have hmark : (x.mark == 'e' || x.mark == 'E') = true := by
    rcases x.mark_eq with h | h
    · rw [h]
      rfl
    · rw [h]
      rfl
  rw [hmark, Bool.true_and]
  rcases hc with hc | rfl
  · rw [Text.looksLikeDigit_of_isDecimalDigit hc, Bool.true_or]
  · rw [Bool.or_eq_true]
    exact Or.inr rfl

theorem signsInExponents (l : Literal) (before : List Char) : SignsInExponents before l.text := by
  have hdigits : ∀ {ds : List Char} {b : List Char}, (∀ c ∈ ds, Text.isDecimalDigit c = true) →
      SignsInExponents b ds :=
    fun h => signsInExponents_of_forall fun c hc => ne_sign_of_isDecimalDigit (h c hc)
  have hfront : ∀ c ∈ l.whole ++ l.fractionText, c ≠ '+' ∧ c ≠ '-' := by
    intro c hc
    rcases List.mem_append.mp hc with h | h
    · exact ne_sign_of_isDecimalDigit (l.isDecimalDigit c h)
    · unfold fractionText at h
      cases hf : l.fraction with
      | none => simp [hf] at h
      | some ds =>
        rw [hf] at h
        rcases List.mem_cons.mp h with rfl | h
        · decide
        · exact ne_sign_of_isDecimalDigit (l.digits ds hf c h)
  have hbrackets : Balanced (l.whole ++ l.fractionText) := by
    apply balanced_of_noBrackets
    intro c hc
    have hw := writes_of_mem_text (l := l) (List.mem_append_left _ hc)
    exact weight_eq_zero (fun h => hw.2 (h ▸ by decide)) (fun h => hw.2 (h ▸ by decide))
  unfold text SignsInExponents
  rw [outside_append_of_balanced hbrackets]
  refine ⟨signsInExponents_of_forall hfront, ?_⟩
  unfold exponentText
  cases l.exponent with
  | none => trivial
  | some x =>
    have hmark : weight x.mark = 0 ∧ x.mark ≠ '+' ∧ x.mark ≠ '-' := by
      rcases x.mark_eq with h | h
      · rw [h]
        decide
      · rw [h]
        decide
    have hends := l.endsAtExponent_mark x before
    unfold Exponent.text
    dsimp only
    refine ⟨fun _ hs => absurd hs (by simp [hmark.2]), ?_⟩
    rw [hmark.1, Int.add_zero]
    rcases x.sign_eq with h | h | h
    · rw [h, List.nil_append]
      exact hdigits x.isDecimalDigit
    · rw [h, List.singleton_append]
      exact ⟨fun _ _ => hends, hdigits x.isDecimalDigit⟩
    · rw [h, List.singleton_append]
      exact ⟨fun _ _ => hends, hdigits x.isDecimalDigit⟩

theorem word (l : Literal) : Word l.text := by
  refine ⟨fun c hc => writes_of_mem_text hc, ?_, ?_, l.signsInExponents, fun before _ => ?_⟩
  · obtain ⟨c, rest, hc⟩ := List.exists_cons_of_ne_nil l.whole_ne_nil
    refine ⟨c, rest ++ l.fractionText ++ l.exponentText, ?_, ?_⟩
    · unfold text
      rw [hc, List.cons_append, List.cons_append]
    · exact ne_sign_of_isDecimalDigit (l.isDecimalDigit c (by rw [hc]; simp))
  · obtain ⟨init, c, he, hc⟩ := l.exists_last
    refine ⟨init, c, he, ?_⟩
    rcases hc with hc | rfl
    · exact ne_sign_of_isDecimalDigit hc
    · decide
  · obtain ⟨init, c, he, hc⟩ := l.exists_last
    rw [he, List.reverse_append, List.reverse_singleton, List.singleton_append, List.cons_append]
    rcases hc with hc | rfl
    · apply endsAtExponent_cons
      · rintro rfl
        exact absurd hc (by decide)
      · rintro rfl
        exact absurd hc (by decide)
    · exact endsAtExponent_cons (by decide) (by decide)

end Literal

theorem Word.startsBare {cs : List Char} (h : Word cs) : Text.StartsBare cs := by
  obtain ⟨c, rest, rfl, -, -⟩ := h.first
  exact Text.startsBare_cons rest (h.writes c (by simp)).1

theorem Word.endsBare {cs : List Char} (h : Word cs) : Text.EndsBare cs := by
  intro x hx
  exact (h.writes x (List.mem_of_getLast? hx)).1

theorem Word.trim {cs : List Char} (h : Word cs) : Text.trim cs = cs :=
  Text.trim_of_bare h.startsBare h.endsBare

/-! ## The number of a literal -/

theorem mem_digits_of_isDigit {c : Char} (h : c.isDigit = true) :
    c ∈ ['0', '1', '2', '3', '4', '5', '6', '7', '8', '9'] := by
  have hall : ∀ n < 58, (Char.ofNat n).isDigit = true →
      Char.ofNat n ∈ ['0', '1', '2', '3', '4', '5', '6', '7', '8', '9'] := by decide
  have hle : c.toNat < 58 := by
    unfold Char.isDigit at h
    rw [Bool.and_eq_true, decide_eq_true_eq, decide_eq_true_eq] at h
    have : c.val.toNat ≤ 57 := h.2
    exact Nat.lt_succ_of_le this
  have hc := hall c.toNat hle
  rw [Char.ofNat_toNat] at hc
  exact hc h

namespace Literal

theorem mem_map_text {l : Literal} {c : Char} (h : c ∈ l.text.map Text.asciiDigit) :
    c.isDigit = true ∨ c ∈ ['.', 'e', 'E', '+', '-'] := by
  obtain ⟨d, hd, rfl⟩ := List.mem_map.mp h
  rcases mem_text hd with hdigit | hd
  · exact Or.inl (Text.isDigit_asciiDigit hdigit)
  · have hall : ∀ x ∈ ['.', 'e', 'E', '+', '-'], Text.asciiDigit x = x := by decide
    exact Or.inr (by rw [hall d hd]; exact hd)

theorem underscore_not_mem (l : Literal) : '_' ∉ l.text.map Text.asciiDigit := by
  intro h
  rcases mem_map_text h with h | h
  · exact absurd h (by decide)
  · exact absurd h (by decide)

theorem exists_first (l : Literal) :
    ∃ c rest, l.text.map Text.asciiDigit = c :: rest ∧ c.isDigit = true := by
  obtain ⟨d, ds, hd⟩ := List.exists_cons_of_ne_nil l.whole_ne_nil
  have hdigit := Text.isDigit_asciiDigit (l.isDecimalDigit d (by simp [hd]))
  unfold text
  rw [hd, List.cons_append, List.cons_append, List.map_cons]
  exact ⟨_, _, rfl, hdigit⟩

/-- Behind its sign, a literal is read as the double nearest to its
decimal. -/
theorem readUnsigned?_text (l : Literal) (negative : Bool) :
    Double.readUnsigned? negative (l.text.map Text.asciiDigit) =
      some (l.decimal.toDouble negative) := by
  obtain ⟨c, rest, hc, hdigit⟩ := l.exists_first
  have hlower : ∀ x ∈ ['0', '1', '2', '3', '4', '5', '6', '7', '8', '9'],
      x.toLower ≠ 'i' ∧ x.toLower ≠ 'n' := by decide
  obtain ⟨hi, hn⟩ := hlower c (mem_digits_of_isDigit hdigit)
  have hdecimal := l.readDecimal?_text
  rw [hc] at hdecimal ⊢
  unfold Double.readUnsigned?
  simp only [List.map_cons, List.cons.injEq, hi, hn, false_and, or_self, if_false, hdecimal,
    Option.map_some]

/-- A literal is read as the double nearest to its decimal. -/
theorem read?_text (l : Literal) : Double.read? l.text = some (l.decimal.toDouble false) := by
  obtain ⟨c, rest, hc, hdigit⟩ := l.exists_first
  have hsign : Double.takeSign (c :: rest) = (false, c :: rest) := by
    unfold Double.takeSign
    split
    · rename_i heq
      cases heq
      exact absurd hdigit (by decide)
    · rename_i heq
      cases heq
      exact absurd hdigit (by decide)
    · rfl
  have hread := l.readUnsigned?_text false
  unfold Double.read?
  rw [l.word.trim, Double.joinGroups?_eq_some l.underscore_not_mem]
  rw [hc] at hread ⊢
  dsimp only
  rw [hsign]
  exact hread

/-- With a minus sign in front it is read as the negative double. -/
theorem read?_minus_text (l : Literal) :
    Double.read? ('-' :: l.text) = some (l.decimal.toDouble true) := by
  have htrim : Text.trim ('-' :: l.text) = '-' :: l.text := by
    refine Text.trim_of_bare (Text.startsBare_cons _ (by decide)) fun x hx => ?_
    obtain ⟨init, c, he, -⟩ := l.exists_last
    apply l.word.endsBare
    rw [he] at hx ⊢
    rwa [← List.cons_append, List.getLast?_concat, ← List.getLast?_concat (l := init)] at hx
  have hminus : ('-' :: l.text).map Text.asciiDigit = '-' :: l.text.map Text.asciiDigit := rfl
  have hjoin : '_' ∉ '-' :: l.text.map Text.asciiDigit := by
    rw [List.mem_cons, not_or]
    exact ⟨by decide, l.underscore_not_mem⟩
  unfold Double.read?
  rw [htrim, hminus, Double.joinGroups?_eq_some hjoin]
  exact l.readUnsigned?_text true

/-- Without a fraction and an exponent there are the digits only. -/
theorem text_eq_whole {l : Literal} (h : l.fraction = none ∧ l.exponent.isNone = true) :
    l.text = l.whole := by
  unfold text fractionText exponentText
  rw [h.1, Option.isNone_iff_eq_none.mp h.2]
  simp

theorem isDigitRun_text (l : Literal) :
    Text.isDigitRun l.text = true ↔ l.fraction = none ∧ l.exponent.isNone = true := by
  rw [isDigitRun_iff]
  constructor
  · rintro ⟨-, h⟩
    constructor
    · cases hf : l.fraction with
      | none => rfl
      | some ds =>
        have := h '.' (by simp [text, fractionText, hf])
        exact absurd this (by decide)
    · cases hx : l.exponent with
      | none => rfl
      | some x =>
        have hmark := h x.mark (by simp [text, exponentText, hx, Exponent.text])
        rcases x.mark_eq with hm | hm
        · rw [hm] at hmark
          exact absurd hmark (by decide)
        · rw [hm] at hmark
          exact absurd hmark (by decide)
  · intro h
    rw [text_eq_whole h]
    exact ⟨l.whole_ne_nil, l.isDecimalDigit⟩

/-- The text of a literal writes its number. -/
theorem numberOf?_text (l : Literal) : numberOf? l.text = some l.number := by
  unfold numberOf? number
  rw [l.read?_text]
  dsimp only
  by_cases hrun : l.fraction = none ∧ l.exponent.isNone = true
  · rw [text_eq_whole hrun, l.run]
    simp only [hrun.1, hrun.2, true_and]
    split
    · rfl
    · rfl
  · have hno : ¬ Text.isDigitRun l.text = true := fun h => hrun (l.isDigitRun_text.mp h)
    rw [if_neg fun h => hno h.1, if_neg fun h => hrun ⟨h.1, h.2.1⟩]

/-! ## Natural numbers -/

/-- The literal that writes a natural number in decimal digits. -/
def ofNat (n : Nat) : Literal where
  whole := Nat.toDigits 10 n
  fraction := none
  exponent := none
  run := by
    rw [isDigitRun_iff]
    refine ⟨Nat.toDigits_ne_nil, fun c hc => ?_⟩
    apply Text.isDecimalDigit_of_isDigit
    exact Nat.isDigit_of_mem_toDigits (by decide) (by decide) hc
  digits := by
    intro ds hds
    cases hds

theorem text_ofNat (n : Nat) : (ofNat n).text = Nat.toDigits 10 n := by
  simp [text, fractionText, exponentText, ofNat]

/-- A natural number that is not too long is read as itself. -/
theorem number_ofNat_of_length {n : Nat}
    (hlimit : (Nat.toDigits 10 n).length ≤ Fault.digitLimit) : (ofNat n).number = .int n := by
  have hascii : (Nat.toDigits 10 n).map Text.asciiDigit = Nat.toDigits 10 n := by
    have hsame : ∀ c ∈ Nat.toDigits 10 n, Text.asciiDigit c = id c := fun c hc =>
      Text.asciiDigit_of_isDigit (Nat.isDigit_of_mem_toDigits (by decide) (by decide) hc)
    rw [List.map_congr_left hsame, List.map_id]
  have hvalue : Text.digitRunValue (Nat.toDigits 10 n) = n := by
    unfold Text.digitRunValue
    rw [hascii, Nat.ofDigitChars_toDigits (by decide) (by decide)]
  unfold number ofNat
  simp [hlimit, hvalue]

theorem number_ofNat {n : Nat} (h : n < exponentBound) : (ofNat n).number = .int n := by
  have hlength : (Nat.toDigits 10 n).length ≤ 21 :=
    (Nat.length_toDigits_le_iff (by decide) (by decide)).mpr h
  exact number_ofNat_of_length (Nat.le_trans hlength (by decide))

end Literal

end Expression

end Worksheet
