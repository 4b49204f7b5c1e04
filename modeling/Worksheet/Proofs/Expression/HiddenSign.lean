-- Hidden signs. A plus or minus after an arithmetic operator is a sign, also
-- when ASCII spaces stand between them. Behind any other blank it is not seen
-- as one, and the text is cut there. A part of a text hides a sign only if the
-- text does; a text that hides one does so in a part, or the sign is the first
-- character of the part after the operator.
import Worksheet.Proofs.Expression.Cut
import Worksheet.Proofs.Expression.Grammar
import Mathlib.Data.List.Infix

namespace Worksheet.Expression

/-! ## Signs behind blanks -/

/-- Between an arithmetic operator and a sign stand blanks, and not ASCII
spaces alone. -/
def HidesSign (cs : List Char) : Prop :=
  ∃ y sp x, y ∈ ['+', '-', '*', '/', '%', '^'] ∧ Text.AllBlank sp ∧ (∃ b ∈ sp, b ≠ ' ') ∧
    (x = '+' ∨ x = '-') ∧ y :: (sp ++ [x]) <:+: cs

/-- The text begins with an operator, and the sign after it is hidden. -/
def hidesNextSign : List Char → Bool
  | [] => false
  | y :: cs =>
    y ∈ ['+', '-', '*', '/', '%', '^'] && (cs.takeWhile Text.isBlank).any (· != ' ')
      && beginsWithSign (cs.dropWhile Text.isBlank)

theorem hidesSign_iff (cs : List Char) : HidesSign cs ↔ ∃ t ∈ cs.tails, hidesNextSign t = true := by
  constructor
  · rintro ⟨y, sp, x, hy, hsp, hother, hx, p, q, rfl⟩
    refine ⟨y :: (sp ++ x :: q), ?_, ?_⟩
    · rw [List.mem_tails]
      exact ⟨p, by simp⟩
    · have hbare : Text.isBlank x = false := by
        rcases hx with rfl | rfl <;> decide
      have htake : (sp ++ x :: q).takeWhile Text.isBlank = sp := by
        rw [List.takeWhile_append_of_pos hsp, List.takeWhile_cons_of_neg (by simp [hbare]),
          List.append_nil]
      have hdrop : (sp ++ x :: q).dropWhile Text.isBlank = x :: q := by
        rw [List.dropWhile_append_of_pos hsp, List.dropWhile_cons_of_neg (by simp [hbare])]
      simp only [hidesNextSign, htake, hdrop, beginsWithSign_cons q hx, hy]
      simpa using hother
  · rintro ⟨t, ht, hnext⟩
    rw [List.mem_tails] at ht
    cases t with
    | nil => cases hnext
    | cons y rest =>
      simp only [hidesNextSign, Bool.and_eq_true, decide_eq_true_eq, List.any_eq_true,
        bne_iff_ne] at hnext
      obtain ⟨⟨hy, hother⟩, hsign⟩ := hnext
      obtain ⟨x, q, he, hx⟩ := exists_cons_of_beginsWithSign hsign
      refine ⟨y, rest.takeWhile Text.isBlank, x, hy, fun b hb => List.mem_takeWhile_imp hb, hother,
        hx, List.IsInfix.trans ⟨[], q, ?_⟩ ht.isInfix⟩
      have hrest := List.takeWhile_append_dropWhile (p := Text.isBlank) (l := rest)
      rw [he] at hrest
      simpa using hrest

instance (cs : List Char) : Decidable (HidesSign cs) := decidable_of_iff _ (hidesSign_iff cs).symm

theorem HidesSign.mono {u cs : List Char} (h : HidesSign u) (hin : u <:+: cs) : HidesSign cs := by
  obtain ⟨y, sp, x, hy, hsp, hother, hx, hu⟩ := h
  exact ⟨y, sp, x, hy, hsp, hother, hx, hu.trans hin⟩

theorem leadsOperand_of_isBlank {c : Char} (h : Text.isBlank c = true) : leadsOperand c = false :=
  Text.forall_blank (p := fun c => leadsOperand c = false) (by decide) h

theorem isSignPosition_space (before : List Char) :
    isSignPosition (' ' :: before) = isSignPosition before := rfl

/-- After another blank no sign is seen. -/
theorem isSignPosition_blank {b : Char} (before : List Char) (h : Text.isBlank b = true)
    (hb : b ≠ ' ') : isSignPosition (b :: before) = false := by
  unfold isSignPosition
  rw [List.dropWhile_cons_of_neg (by simpa using hb)]
  exact leadsOperand_of_isBlank h

/-- After blanks that are not ASCII spaces alone no sign is seen. -/
theorem isSignPosition_of_hidden {sp : List Char} (hsp : Text.AllBlank sp)
    (hother : ∃ b ∈ sp, b ≠ ' ') (before : List Char) :
    isSignPosition (sp ++ before) = false := by
  induction sp with
  | nil => simp at hother
  | cons b sp ih =>
    have hrest : Text.AllBlank sp := fun c hc => hsp c (List.mem_cons_of_mem b hc)
    by_cases hb : b = ' '
    · subst hb
      rw [List.cons_append, isSignPosition_space]
      exact ih hrest (by simpa using hother)
    · exact isSignPosition_blank _ (hsp b (by simp)) hb

/-- Blanks before a place where there is no sign leave it so. -/
theorem isSignPosition_after_blanks {sp before : List Char} (hsp : Text.AllBlank sp)
    (h : isSignPosition before = false) : isSignPosition (sp ++ before) = false := by
  by_cases hother : ∃ b ∈ sp, b ≠ ' '
  · exact isSignPosition_of_hidden hsp hother before
  · have hspaces : ∀ b ∈ sp, (b == ' ') = true := by simpa using hother
    unfold isSignPosition
    rw [List.dropWhile_append_of_pos hspaces]
    exact h

/-- Where no sign is hidden, ASCII spaces alone stand between an arithmetic
operator and a sign. -/
theorem spaces_before_sign {y : Char} {sp cs : List Char} (h : ¬ HidesSign (y :: (sp ++ cs)))
    (hy : y ∈ ['+', '-', '*', '/', '%', '^']) (hsp : Text.AllBlank sp)
    (hcs : beginsWithSign cs = true) : ∀ b ∈ sp, b = ' ' := by
  obtain ⟨x, rest, rfl, hx⟩ := exists_cons_of_beginsWithSign hcs
  intro b hb
  by_contra hne
  exact h ⟨y, sp, x, hy, hsp, ⟨b, hb, hne⟩, hx, ⟨[], rest, by simp⟩⟩

/-! ## Parts of a text -/

variable {u v : List Char}

/-- A hidden sign is one of a part, or it stands in the second part and its
operator in the first. -/
theorem HidesSign.append_cases (h : HidesSign (u ++ v)) :
    HidesSign u ∨ HidesSign v ∨
      ∃ u' y sp sp' x v', u = u' ++ y :: sp ∧ v = sp' ++ x :: v' ∧
        y ∈ ['+', '-', '*', '/', '%', '^'] ∧ Text.AllBlank sp ∧ Text.AllBlank sp' ∧
        (∃ b ∈ sp ++ sp', b ≠ ' ') ∧ (x = '+' ∨ x = '-') := by
  obtain ⟨y, sp, x, hy, hsp, hother, hx, hin⟩ := h
  rcases List.infix_append_iff.mp hin with hu | hv | ⟨t, t', he, ⟨u', hu⟩, ⟨v', hv⟩⟩
  · exact Or.inl ⟨y, sp, x, hy, hsp, hother, hx, hu⟩
  · exact Or.inr (Or.inl ⟨y, sp, x, hy, hsp, hother, hx, hv⟩)
  · rcases List.cons_eq_append_iff.mp he with ⟨rfl, rfl⟩ | ⟨t₁, rfl, hrest⟩
    · exact Or.inr (Or.inl ⟨y, sp, x, hy, hsp, hother, hx, ⟨[], v', hv⟩⟩)
    · rcases List.eq_nil_or_concat t' with rfl | ⟨t₂, z, rfl⟩
      · rw [List.append_nil] at hrest
        exact Or.inl ⟨y, sp, x, hy, hsp, hother, hx, ⟨u', [], by rw [hrest, List.append_nil, hu]⟩⟩
      · rw [List.concat_eq_append, ← List.append_assoc] at hrest
        obtain ⟨rfl, hz⟩ := List.append_inj' hrest rfl
        obtain rfl : x = z := List.singleton_inj.mp hz
        refine Or.inr (Or.inr ⟨u', y, t₁, t₂, x, v', hu.symm, ?_, hy, ?_, ?_, hother, hx⟩)
        · rw [← hv]
          simp
        · exact fun b hb => hsp b (List.mem_append_left _ hb)
        · exact fun b hb => hsp b (List.mem_append_right _ hb)

/-- Without arithmetic operators the first part hides nothing. -/
theorem HidesSign.of_append_right (h : HidesSign (u ++ v))
    (hu : ∀ c ∈ u, c ∉ ['+', '-', '*', '/', '%', '^']) : HidesSign v := by
  rcases h.append_cases with ⟨y, sp, x, hy, -, -, -, hin⟩ | hv | ⟨u', y, sp, _, _, _, rfl, -, hy, -⟩
  · exact absurd hy (hu y (hin.subset (by simp)))
  · exact hv
  · exact absurd hy (hu y (by simp))

/-- Without signs the second part hides nothing. -/
theorem HidesSign.of_append_left (h : HidesSign (u ++ v))
    (hv : ∀ c ∈ v, c ≠ '+' ∧ c ≠ '-') : HidesSign u := by
  have hno : ∀ x ∈ v, ¬ (x = '+' ∨ x = '-') := fun x hx => by simpa using hv x hx
  rcases h.append_cases with
    hu | ⟨y, sp, x, -, -, -, hx, hin⟩ | ⟨_, _, _, sp', x, _, -, rfl, -, -, -, -, hx⟩
  · exact hu
  · exact absurd hx (hno x (hin.subset (by simp)))
  · exact absurd hx (hno x (by simp))

theorem not_arithmetic_of_isBlank {c : Char} (h : Text.isBlank c = true) :
    c ∉ ['+', '-', '*', '/', '%', '^'] :=
  Text.forall_blank (p := fun c => c ∉ ['+', '-', '*', '/', '%', '^']) (by decide) h

theorem HidesSign.of_blanks {sp : List Char} (h : HidesSign (sp ++ v)) (hsp : Text.AllBlank sp) :
    HidesSign v :=
  h.of_append_right fun _ hc => not_arithmetic_of_isBlank (hsp _ hc)

theorem HidesSign.of_blanks_after {sp : List Char} (h : HidesSign (u ++ sp))
    (hsp : Text.AllBlank sp) : HidesSign u := by
  refine h.of_append_left fun c hc => ?_
  have hno := not_arithmetic_of_isBlank (hsp c hc)
  constructor
  · rintro rfl
    exact hno (by simp)
  · rintro rfl
    exact hno (by simp)

/-- Blanks at the ends of a text hide nothing. -/
theorem hidesSign_trim (cs : List Char) : HidesSign (Text.trim cs) ↔ HidesSign cs := by
  obtain ⟨sp, sp', hsp, hsp', he⟩ := Text.exists_trim cs
  constructor
  · intro h
    exact h.mono ⟨sp, sp', he.symm⟩
  · intro h
    rw [he] at h
    exact (h.of_blanks_after hsp').of_blanks hsp

/-- After a character and blanks: the sign that is hidden stands behind, or it
comes next. -/
theorem HidesSign.cons_cases {y : Char} {sp : List Char} (h : HidesSign (y :: (sp ++ v)))
    (hsp : Text.AllBlank sp) (hv : Text.StartsBare v) :
    HidesSign v ∨ y ∈ ['+', '-', '*', '/', '%', '^'] ∧ (∃ b ∈ sp, b ≠ ' ') ∧
      ∃ x v', v = x :: v' ∧ (x = '+' ∨ x = '-') := by
  have hsplit : HidesSign ([y] ++ (sp ++ v)) := h
  rcases hsplit.append_cases with ⟨_, t, _, -, -, ⟨b, hb, -⟩, -, hin⟩ | hrest | hacross
  · have hlen := hin.length_le
    have hpos := List.length_pos_of_mem hb
    simp only [List.length_cons, List.length_append, List.length_nil] at hlen
    omega
  · exact Or.inl (hrest.of_blanks hsp)
  · obtain ⟨u', y', t, sp', x, v', hu, he, hy, -, hsp', hother, hx⟩ := hacross
    have hbare : Text.StartsBare (x :: v') := by
      apply Text.startsBare_cons
      rcases hx with rfl | rfl <;> decide
    obtain rfl : v = x :: v' := by
      rw [← Text.trimStart_of_startsBare hv, ← Text.trimStart_append hsp, he,
        Text.trimStart_append hsp', Text.trimStart_of_startsBare hbare]
    obtain rfl : sp = sp' := List.append_cancel_right he
    obtain ⟨rfl, hrest⟩ := List.append_eq_singleton_iff.mp hu.symm |>.resolve_right (by simp)
    cases hrest
    exact Or.inr ⟨hy, hother, x, v', rfl, hx⟩

/-- A hidden sign of pieces with commas between them is one of a piece. -/
theorem HidesSign.of_intercalate {pieces : List (List Char)}
    (h : HidesSign ([','].intercalate pieces)) : ∃ p ∈ pieces, HidesSign p := by
  induction pieces with
  | nil =>
    obtain ⟨y, sp, x, -, -, -, -, hin⟩ := h
    exact absurd (List.infix_nil.mp hin) (by simp)
  | cons p rest ih =>
    cases rest with
    | nil => exact ⟨p, by simp, by simpa using h⟩
    | cons q rest =>
      have hjoined : HidesSign (p ++ ([','] ++ [','].intercalate (q :: rest))) := by
        simpa [List.intercalate] using h
      rcases hjoined.append_cases with hp | hrest | hacross
      · exact ⟨p, by simp, hp⟩
      · obtain ⟨t, ht, hhides⟩ := ih (hrest.of_append_right (by decide))
        exact ⟨t, List.mem_cons_of_mem p ht, hhides⟩
      · obtain ⟨_, _, _, sp', x, _, -, he, -, -, hsp', -, hx⟩ := hacross
        exfalso
        cases sp' with
        | nil =>
          obtain rfl := (List.cons.inj he).1
          exact absurd hx (by decide)
        | cons b sp' =>
          obtain rfl := (List.cons.inj he).1
          exact absurd (List.forall_mem_cons.mp hsp').1 (by decide)

end Worksheet.Expression
