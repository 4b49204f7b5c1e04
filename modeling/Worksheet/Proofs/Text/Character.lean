-- What characters are not. A blank writes nothing: it is no digit, and no
-- letter with another case. A digit of any script is no letter either. All
-- of this is read off the tables of characters, range by range.
import Worksheet.Text.Blank
import Worksheet.Text.Digit
import Worksheet.Text.Upper

namespace Worksheet.Text

/-! ## Characters of a list -/

/-- What is said of the characters of a list is decided over the list, not
over all characters there are. -/
instance (priority := high) decidableForallMem (cs : List Char) (p : Char → Prop)
    [DecidablePred p] : Decidable (∀ c ∈ cs, p c) := List.decidableBAll p cs

/-! ## Blanks -/

/-- The code points of the blanks. -/
def blankCodes : List Nat := [
  9, 10, 11, 12, 13, 28, 29, 30, 31, 32, 0x85, 0xA0, 0x1680, 0x2000, 0x2001, 0x2002, 0x2003,
  0x2004, 0x2005, 0x2006, 0x2007, 0x2008, 0x2009, 0x200A, 0x2028, 0x2029, 0x202F, 0x205F, 0x3000]

theorem toNat_mem_blankCodes {c : Char} (h : isBlank c = true) : c.toNat ∈ blankCodes := by
  unfold isBlank at h
  simp only [Bool.or_eq_true, Bool.and_eq_true, decide_eq_true_eq, beq_iff_eq] at h
  unfold blankCodes
  simp only [List.mem_cons, List.not_mem_nil, or_false]
  omega

/-- What holds of every listed blank holds of every blank. -/
theorem forall_blank {p : Char → Prop} (h : ∀ n ∈ blankCodes, p (Char.ofNat n)) {c : Char}
    (hc : isBlank c = true) : p c := by
  have hp := h c.toNat (toNat_mem_blankCodes hc)
  rwa [Char.ofNat_toNat] at hp

theorem looksLikeDigit_of_isBlank {c : Char} (h : isBlank c = true) :
    looksLikeDigit c = false :=
  forall_blank (p := fun c => looksLikeDigit c = false) (by decide) h

theorem upperChar_of_isBlank {c : Char} (h : isBlank c = true) : upperChar c = [c] :=
  forall_blank (p := fun c => upperChar c = [c]) (by decide) h

/-! ## Digits -/

/-- The first and the last code point of each run of digits. -/
def digitRanges : List (Nat × Nat) := decimalZeros.map (fun z => (z, z + 9)) ++ ornateDigits

theorem digitValue?_eq_some {c : Char} {d : Nat} (h : digitValue? c = some d) :
    d < 10 ∧ ∃ z ∈ decimalZeros, c.toNat = z + d := by
  unfold digitValue? at h
  dsimp only at h
  split at h
  · split at h
    · rename_i hr
      rw [Option.some.injEq] at h
      exact ⟨by omega, 0x30, by decide, by omega⟩
    · cases h
  · rw [Option.map_eq_some_iff] at h
    obtain ⟨z, hz, hd⟩ := h
    have hin := List.find?_some hz
    simp only [Bool.and_eq_true, decide_eq_true_eq] at hin
    exact ⟨by omega, z, List.mem_of_find?_eq_some hz, by omega⟩

theorem exists_range_of_looksLikeDigit {c : Char} (h : looksLikeDigit c = true) :
    ∃ r ∈ digitRanges, r.1 ≤ c.toNat ∧ c.toNat ≤ r.2 := by
  unfold looksLikeDigit at h
  rw [Bool.or_eq_true, Bool.and_eq_true, List.any_eq_true] at h
  rcases h with h | ⟨-, r, hr, hin⟩
  · obtain ⟨d, hd⟩ := Option.isSome_iff_exists.mp h
    obtain ⟨hlt, z, hz, hn⟩ := digitValue?_eq_some hd
    refine ⟨(z, z + 9), ?_, by simp only; omega, by simp only; omega⟩
    exact List.mem_append_left _ (List.mem_map_of_mem hz)
  · simp only [Bool.and_eq_true, decide_eq_true_eq] at hin
    exact ⟨r, List.mem_append_right _ hr, hin⟩

theorem looksLikeDigit_of_isDecimalDigit {c : Char} (h : isDecimalDigit c = true) :
    looksLikeDigit c = true := by
  unfold looksLikeDigit
  rw [h]
  rfl

/-- Beyond ASCII, what stands in none of the tables is its own upper case. -/
theorem upperChar_of_not_mem {c : Char} (h : ¬ c.toNat < 0x80)
    (hexpand : ∀ e ∈ upperExpansions, e.1 ≠ c.toNat)
    (hruns : ∀ u ∈ upperRuns, ¬ (u.1 ≤ c.toNat ∧ c.toNat ≤ u.2.1)) : upperChar c = [c] := by
  have he : (upperExpansions.find? fun e => e.1 == c.toNat) = none := by
    rw [List.find?_eq_none]
    intro e hmem
    simpa using hexpand e hmem
  have hr : (upperRuns.find? fun r =>
      r.1 ≤ c.toNat && c.toNat ≤ r.2.1 && (c.toNat - r.1) % r.2.2.1 == 0) = none := by
    rw [List.find?_eq_none]
    intro u hmem hin
    simp only [Bool.and_eq_true, decide_eq_true_eq] at hin
    exact hruns u hmem hin.1
  unfold upperChar
  dsimp only
  rw [if_neg h, he, hr]

/-- The first run of code points does not meet the second. -/
def apart (r u : Nat × Nat) : Bool := Nat.blt u.2 r.1 || Nat.blt r.2 u.1

theorem apart_iff (r u : Nat × Nat) : apart r u = true ↔ u.2 < r.1 ∨ r.2 < u.1 := by
  unfold apart
  rw [Bool.or_eq_true, Nat.blt_eq, Nat.blt_eq]

/-- The runs of letters that have an upper case. -/
def letterRanges : List (Nat × Nat) :=
  upperExpansions.map (fun e => (e.1, e.1)) ++ upperRuns.map fun u => (u.1, u.2.1)

/-- No run of digits meets a run of letters that have an upper case. -/
theorem digitRanges_apart : ∀ r ∈ digitRanges, ∀ u ∈ letterRanges, u.2 < r.1 ∨ r.2 < u.1 := by
  have hall : (digitRanges.all fun r => letterRanges.all fun u => apart r u) = true := by
    decide +kernel
  intro r hr u hu
  rw [List.all_eq_true] at hall
  exact (apart_iff r u).mp (List.all_eq_true.mp (hall r hr) u hu)

/-- A digit of any script has no other case. -/
theorem upperChar_of_looksLikeDigit {c : Char} (h : looksLikeDigit c = true) :
    upperChar c = [c] := by
  obtain ⟨r, hr, hlo, hhi⟩ := exists_range_of_looksLikeDigit h
  have happart := digitRanges_apart r hr
  by_cases hascii : c.toNat < 0x80
  · have hsmall : ∀ n < 0x80, looksLikeDigit (Char.ofNat n) = true →
        upperChar (Char.ofNat n) = [Char.ofNat n] := by decide +kernel
    have hc := hsmall c.toNat hascii
    rw [Char.ofNat_toNat] at hc
    exact hc h
  · refine upperChar_of_not_mem hascii (fun e he heq => ?_) fun u hu hin => ?_
    · have := happart (e.1, e.1) (List.mem_append_left _ (List.mem_map_of_mem he))
      simp only at this
      omega
    · have := happart (u.1, u.2.1) (List.mem_append_right _ (List.mem_map_of_mem hu))
      simp only at this
      omega

/-- The ASCII digit of a decimal digit is a digit of the same value. -/
theorem isDigit_asciiDigit {c : Char} (h : isDecimalDigit c = true) :
    (asciiDigit c).isDigit = true := by
  obtain ⟨d, hd⟩ := Option.isSome_iff_exists.mp h
  have hlt := (digitValue?_eq_some hd).1
  have hall : ∀ k < 10, (Char.ofNat (0x30 + k)).isDigit = true := by decide
  unfold asciiDigit
  rw [hd]
  exact hall d hlt

theorem asciiDigit_of_not_decimal {c : Char} (h : isDecimalDigit c = false) :
    asciiDigit c = c := by
  unfold asciiDigit
  rw [Option.isSome_eq_false_iff.mp h |> Option.isNone_iff_eq_none.mp]

/-- The ASCII digits are decimal digits. -/
theorem isDecimalDigit_of_isDigit {c : Char} (h : c.isDigit = true) :
    isDecimalDigit c = true := by
  unfold Char.isDigit at h
  rw [Bool.and_eq_true, decide_eq_true_eq, decide_eq_true_eq] at h
  have hlo : 48 ≤ c.toNat := h.1
  have hhi : c.toNat ≤ 57 := h.2
  have hascii : c.toNat < 0x80 := by omega
  unfold isDecimalDigit digitValue?
  dsimp only
  rw [if_pos hascii, if_pos ⟨hlo, hhi⟩]
  rfl

theorem asciiDigit_of_isDigit {c : Char} (h : c.isDigit = true) : asciiDigit c = c := by
  have hall : ∀ k < 10, asciiDigit (Char.ofNat (0x30 + k)) = Char.ofNat (0x30 + k) := by decide
  unfold Char.isDigit at h
  rw [Bool.and_eq_true, decide_eq_true_eq, decide_eq_true_eq] at h
  have hlo : 48 ≤ c.toNat := h.1
  have hhi : c.toNat ≤ 57 := h.2
  have hc := hall (c.toNat - 0x30) (by omega)
  rwa [Nat.add_sub_of_le hlo, Char.ofNat_toNat] at hc

end Worksheet.Text
