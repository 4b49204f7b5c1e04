-- Trimming. A text is its trimmed text with blanks on both sides, and a
-- text that is bare at both ends is trimmed already.
import Worksheet.Text.Blank
import Mathlib.Data.List.TakeWhile

namespace Worksheet.Text

/-! ## Ends of a text -/

/-- No blank at the start. -/
def StartsBare (cs : List Char) : Prop := ∀ c ∈ cs.head?, isBlank c = false

/-- No blank at the end. -/
def EndsBare (cs : List Char) : Prop := ∀ c ∈ cs.getLast?, isBlank c = false

/-- Blanks only. -/
def AllBlank (cs : List Char) : Prop := ∀ c ∈ cs, isBlank c = true

theorem allBlank_nil : AllBlank [] := by simp [AllBlank]

theorem AllBlank.append {u v : List Char} (hu : AllBlank u) (hv : AllBlank v) :
    AllBlank (u ++ v) := by
  intro c hc
  rcases List.mem_append.mp hc with h | h
  · exact hu c h
  · exact hv c h

theorem AllBlank.reverse {cs : List Char} (h : AllBlank cs) : AllBlank cs.reverse :=
  fun c hc => h c (List.mem_reverse.mp hc)

theorem startsBare_cons {c : Char} (cs : List Char) (h : isBlank c = false) :
    StartsBare (c :: cs) := by
  intro x hx
  cases hx
  exact h

theorem endsBare_concat (cs : List Char) {c : Char} (h : isBlank c = false) :
    EndsBare (cs ++ [c]) := by
  intro x hx
  rw [List.getLast?_concat] at hx
  cases hx
  exact h

theorem StartsBare.eq_nil {sp cs : List Char} (h : StartsBare (sp ++ cs)) (hsp : AllBlank sp) :
    sp = [] := by
  cases sp with
  | nil => rfl
  | cons b sp =>
    have hb := hsp b (by simp)
    rw [h b rfl] at hb
    cases hb

theorem EndsBare.eq_nil {cs sp : List Char} (h : EndsBare (cs ++ sp)) (hsp : AllBlank sp) :
    sp = [] := by
  rcases List.eq_nil_or_concat sp with hnil | ⟨init, b, rfl⟩
  · exact hnil
  · have hb := hsp b (by simp)
    have hlast : (cs ++ init.concat b).getLast? = some b := by
      rw [List.concat_eq_append, ← List.append_assoc, List.getLast?_concat]
    rw [h b hlast] at hb
    cases hb

theorem trimStart_of_startsBare {cs : List Char} (h : StartsBare cs) : trimStart cs = cs := by
  unfold trimStart
  cases cs with
  | nil => rfl
  | cons c rest =>
    have hc : isBlank c = false := h c rfl
    exact List.dropWhile_cons_of_neg (by simp [hc])

theorem trimStart_append {sp cs : List Char} (h : AllBlank sp) :
    trimStart (sp ++ cs) = trimStart cs := List.dropWhile_append_of_pos h

theorem startsBare_trimStart (cs : List Char) : StartsBare (trimStart cs) := by
  intro c hc
  have hnot := List.head?_dropWhile_not isBlank cs
  unfold trimStart at hc
  rw [Option.mem_def.mp hc] at hnot
  simpa using hnot

/-- A text is its blanks at the start, and the rest. -/
theorem exists_trimStart (cs : List Char) :
    ∃ sp, AllBlank sp ∧ cs = sp ++ trimStart cs := by
  refine ⟨cs.takeWhile isBlank, fun c hc => ?_, List.takeWhile_append_dropWhile.symm⟩
  exact List.mem_takeWhile_imp hc

/-! ## Trimming from the other side -/

theorem trimEnd_eq (cs : List Char) : trimEnd cs = (trimStart cs.reverse).reverse := rfl

theorem startsBare_reverse {cs : List Char} : StartsBare cs.reverse ↔ EndsBare cs := by
  unfold StartsBare EndsBare
  rw [List.head?_reverse]

theorem trimEnd_of_endsBare {cs : List Char} (h : EndsBare cs) : trimEnd cs = cs := by
  rw [trimEnd_eq, trimStart_of_startsBare (startsBare_reverse.mpr h), List.reverse_reverse]

theorem trimEnd_append {sp cs : List Char} (h : AllBlank sp) :
    trimEnd (cs ++ sp) = trimEnd cs := by
  rw [trimEnd_eq, List.reverse_append, trimStart_append h.reverse, ← trimEnd_eq]

theorem endsBare_trimEnd (cs : List Char) : EndsBare (trimEnd cs) := by
  rw [trimEnd_eq, ← startsBare_reverse, List.reverse_reverse]
  exact startsBare_trimStart cs.reverse

theorem exists_trimEnd (cs : List Char) :
    ∃ sp, AllBlank sp ∧ cs = trimEnd cs ++ sp := by
  obtain ⟨sp, hsp, he⟩ := exists_trimStart cs.reverse
  refine ⟨sp.reverse, hsp.reverse, ?_⟩
  rw [trimEnd_eq, ← List.reverse_append, ← he, List.reverse_reverse]

/-! ## Trimming on both sides -/

theorem trim_of_bare {cs : List Char} (hs : StartsBare cs) (he : EndsBare cs) : trim cs = cs := by
  unfold trim
  rw [trimStart_of_startsBare hs, trimEnd_of_endsBare he]

theorem endsBare_trim (cs : List Char) : EndsBare (trim cs) := endsBare_trimEnd _

theorem startsBare_trim (cs : List Char) : StartsBare (trim cs) := by
  intro c hc
  obtain ⟨sp, -, he⟩ := exists_trimEnd (trimStart cs)
  apply startsBare_trimStart cs c
  rw [he, List.head?_append, show (trimEnd (trimStart cs)).head? = some c from hc]
  rfl

@[simp] theorem trim_trim (cs : List Char) : trim (trim cs) = trim cs :=
  trim_of_bare (startsBare_trim cs) (endsBare_trim cs)

/-- A text is its trimmed text between blanks. -/
theorem exists_trim (cs : List Char) :
    ∃ sp sp', AllBlank sp ∧ AllBlank sp' ∧ cs = sp ++ trim cs ++ sp' := by
  obtain ⟨sp, hsp, he⟩ := exists_trimStart cs
  obtain ⟨sp', hsp', he'⟩ := exists_trimEnd (trimStart cs)
  refine ⟨sp, sp', hsp, hsp', ?_⟩
  unfold trim
  rw [List.append_assoc, ← he', ← he]

/-- Blanks around a text do not matter for its trimmed text. -/
theorem trim_between {sp sp' : List Char} (hsp : AllBlank sp) (hsp' : AllBlank sp')
    (cs : List Char) : trim (sp ++ cs ++ sp') = trim cs := by
  unfold trim
  rw [List.append_assoc, trimStart_append hsp]
  by_cases h : AllBlank cs
  · have hnil : ∀ {u : List Char}, AllBlank u → trimStart u = [] := by
      intro u hu
      exact List.dropWhile_eq_nil_iff.mpr hu
    rw [hnil (h.append hsp'), hnil h]
  · have hne : trimStart cs ≠ [] := by
      intro hnil
      exact h (List.dropWhile_eq_nil_iff.mp hnil)
    have hbare : StartsBare (trimStart cs ++ sp') := by
      intro c hc
      apply startsBare_trimStart cs c
      rw [List.head?_append, Option.mem_def, Option.or_of_isSome (List.isSome_head?.mpr hne)] at hc
      exact hc
    obtain ⟨sp₀, h₀, he⟩ := exists_trimStart cs
    have hstart : trimStart (cs ++ sp') = trimStart cs ++ sp' := calc
      trimStart (cs ++ sp') = trimStart (sp₀ ++ trimStart cs ++ sp') := by rw [← he]
      _ = trimStart (trimStart cs ++ sp') := by rw [List.append_assoc, trimStart_append h₀]
      _ = trimStart cs ++ sp' := trimStart_of_startsBare hbare
    rw [hstart, trimEnd_append hsp']

theorem trim_eq_nil_iff (cs : List Char) : trim cs = [] ↔ AllBlank cs := by
  constructor
  · intro h
    obtain ⟨sp, sp', hsp, hsp', he⟩ := exists_trim cs
    rw [he, h, List.append_nil]
    exact hsp.append hsp'
  · intro h
    have hcs := trim_between h allBlank_nil []
    rw [List.append_nil, List.append_nil] at hcs
    exact hcs

end Worksheet.Text
