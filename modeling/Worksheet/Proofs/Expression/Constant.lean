-- Constants as they are written, in any case. Blanks, separators and digits
-- are their own upper case, and no constant has them in its name, so the text
-- of a constant has none of them either, and is no number.
import Worksheet.Proofs.Expression.Literal

namespace Worksheet

/-- The name of a constant in upper case. -/
def Constant.name : Constant → String
  | .pi => "PI"
  | .e => "E"
  | .true => "TRUE"
  | .false => "FALSE"

namespace Expression

/-! ## Positions of operands -/

theorem mem_of_leadsOperand {c : Char} (h : leadsOperand c = true) :
    c ∈ ['(', ',', '+', '-', '*', '/', '%', '^', '>', '<', '=', '!'] := by
  unfold leadsOperand at h
  simp only [Bool.or_eq_true, beq_iff_eq] at h
  simp only [List.mem_cons, List.not_mem_nil, or_false]
  tauto

/-- In the position of a sign, the character before is no digit and no
point. -/
theorem not_digit_of_isSignPosition {before : List Char} (h : isSignPosition before = true) :
    ∀ d ∈ before.head?, Text.looksLikeDigit d = false ∧ d ≠ '.' := by
  intro d hd
  cases before with
  | nil => cases hd
  | cons c before =>
    rw [List.head?_cons, Option.mem_def, Option.some.injEq] at hd
    subst hd
    by_cases hspace : c = ' '
    · subst hspace
      decide
    · unfold isSignPosition at h
      rw [List.dropWhile_cons_of_neg (by simpa using hspace)] at h
      have hall : ∀ x ∈ ['(', ',', '+', '-', '*', '/', '%', '^', '>', '<', '=', '!'],
          Text.looksLikeDigit x = false ∧ x ≠ '.' := by decide
      exact hall c (mem_of_leadsOperand h)

/-! ## Constants -/

/-- The text is the name of the constant in some case. -/
def Spells (k : Constant) (cs : List Char) : Prop := Text.upper (String.ofList cs) = k.name

theorem Spells.ofName? {k : Constant} {cs : List Char} (h : Spells k cs) :
    Constant.ofName? (String.ofList cs) = some k := by
  unfold Constant.ofName?
  dsimp only
  rw [show Text.upper (String.ofList cs) = k.name from h]
  cases k with
  | pi => decide
  | e => decide
  | true => decide
  | false => decide

theorem spells_of_ofName? {k : Constant} {cs : List Char}
    (h : Constant.ofName? (String.ofList cs) = some k) : Spells k cs := by
  unfold Constant.ofName? at h
  dsimp only at h
  unfold Spells
  split at h
  · rename_i hname
    cases h
    exact hname
  · split at h
    · rename_i hname
      cases h
      exact hname
    · split at h
      · rename_i hname
        cases h
        exact hname
      · split at h
        · rename_i hname
          cases h
          exact hname
        · cases h

theorem Spells.flatMap {k : Constant} {cs : List Char} (h : Spells k cs) :
    cs.flatMap Text.upperChar = k.name.toList := by
  have hlist := congrArg String.toList h
  unfold Text.upper at hlist
  simpa using hlist

/-- A character without another case stands in the name of the constant. -/
theorem Spells.mem_name {k : Constant} {cs : List Char} (h : Spells k cs) {c : Char} (hc : c ∈ cs)
    (hself : Text.upperChar c = [c]) : c ∈ k.name.toList := by
  rw [← h.flatMap, List.mem_flatMap]
  exact ⟨c, hc, by rw [hself]; simp⟩

theorem Spells.not_digit {k : Constant} {cs : List Char} (h : Spells k cs) {c : Char}
    (hc : c ∈ cs) : Text.looksLikeDigit c = false := by
  cases hd : Text.looksLikeDigit c with
  | false => rfl
  | true =>
    have hmem := h.mem_name hc (Text.upperChar_of_looksLikeDigit hd)
    have hname : ∀ x ∈ k.name.toList, Text.looksLikeDigit x = false := by
      cases k <;> decide
    rw [hname c hmem] at hd
    cases hd

/-- The characters without another case that stand in no constant. -/
theorem Spells.not_mem {k : Constant} {cs : List Char} (h : Spells k cs) :
    ∀ x ∈ '.' :: '+' :: '-' :: separators, x ∉ cs := by
  intro x hx hmem
  have hself : ∀ y ∈ '.' :: '+' :: '-' :: separators, Text.upperChar y = [y] := by decide
  have hname : ∀ y ∈ '.' :: '+' :: '-' :: separators, y ∉ k.name.toList := by
    cases k <;> decide
  exact hname x hx (h.mem_name hmem (hself x hx))

theorem Spells.writes {k : Constant} {cs : List Char} (h : Spells k cs) :
    ∀ c ∈ cs, Writes c := by
  intro c hc
  constructor
  · cases hb : Text.isBlank c with
    | false => rfl
    | true =>
      have hmem := h.mem_name hc (Text.upperChar_of_isBlank hb)
      have hname : ∀ x ∈ k.name.toList, Text.isBlank x = false := by
        cases k <;> decide
      rw [hname c hmem] at hb
      cases hb
  · intro hsep
    exact h.not_mem c (by simp [hsep]) hc

theorem Spells.ne_nil {k : Constant} {cs : List Char} (h : Spells k cs) : cs ≠ [] := by
  rintro rfl
  have hnil := h.flatMap
  cases k with
  | pi => exact absurd hnil (by decide)
  | e => exact absurd hnil (by decide)
  | true => exact absurd hnil (by decide)
  | false => exact absurd hnil (by decide)

theorem Spells.ne_sign {k : Constant} {cs : List Char} (h : Spells k cs) :
    ∀ c ∈ cs, c ≠ '+' ∧ c ≠ '-' := by
  intro c hc
  constructor
  · rintro rfl
    exact h.not_mem '+' (by simp) hc
  · rintro rfl
    exact h.not_mem '-' (by simp) hc

/-- The text of a constant is a word. Before the mark of an exponent there
would be a digit or a point, and there is none. -/
theorem Spells.word {k : Constant} {cs : List Char} (h : Spells k cs) : Word cs := by
  have hne := h.ne_nil
  refine ⟨h.writes, ?_, ?_, fun before => signsInExponents_of_forall h.ne_sign,
    fun before hbefore => ?_⟩
  · obtain ⟨c, rest, hc⟩ := List.exists_cons_of_ne_nil hne
    exact ⟨c, rest, hc, h.ne_sign c (by rw [hc]; simp)⟩
  · rcases List.eq_nil_or_concat cs with hnil | ⟨init, c, hc⟩
    · exact absurd hnil hne
    · rw [List.concat_eq_append] at hc
      exact ⟨init, c, hc, h.ne_sign c (by rw [hc]; simp)⟩
  · have hsecond : ∀ c d rest, cs.reverse ++ before = c :: d :: rest →
        Text.looksLikeDigit d = false ∧ d ≠ '.' := by
      intro c d rest he
      cases hrev : cs.reverse with
      | nil => exact absurd (List.reverse_eq_nil_iff.mp hrev) hne
      | cons x init =>
        rw [hrev, List.cons_append, List.cons.injEq] at he
        cases init with
        | nil =>
          rw [List.nil_append] at he
          exact not_digit_of_isSignPosition hbefore d (by rw [he.2]; rfl)
        | cons y init =>
          rw [List.cons_append, List.cons.injEq] at he
          have hmem : d ∈ cs := by
            rw [← he.2.1, ← List.mem_reverse, hrev]
            simp
          refine ⟨h.not_digit hmem, ?_⟩
          rintro rfl
          exact h.not_mem '.' (by simp) hmem
    unfold endsAtExponent
    split
    · rename_i c d rest he
      obtain ⟨hdigit, hpoint⟩ := hsecond c d rest he
      simp [hdigit, hpoint]
    · rfl

/-- The text of a constant is no number. -/
theorem Spells.numberOf? {k : Constant} {cs : List Char} (h : Spells k cs) :
    numberOf? cs = none := by
  unfold Expression.numberOf?
  cases hr : Double.read? cs with
  | none => rfl
  | some x =>
    exfalso
    rcases Double.exists_digit_or_n_of_read? hr with ⟨c, hc, hdigit⟩ | ⟨c, hc, hn⟩
    · have hno := h.not_digit hc
      rw [Text.looksLikeDigit_of_isDecimalDigit hdigit] at hno
      cases hno
    · have hupper : 'N' ∈ k.name.toList := by
        rw [← h.flatMap, List.mem_flatMap]
        refine ⟨c, hc, ?_⟩
        rcases hn with rfl | rfl
        · decide
        · decide
      have hname : 'N' ∉ k.name.toList := by
        cases k <;> decide
      exact hname hupper

theorem Spells.leaf {k : Constant} {cs : List Char} (h : Spells k cs) :
    leaf cs = .constant k := by
  unfold Expression.leaf
  rw [h.numberOf?, h.ofName?]

theorem Literal.leaf (l : Literal) : leaf l.text = .number l.number := by
  unfold Expression.leaf
  rw [l.numberOf?_text]

end Expression

end Worksheet
