-- Calls. A text is a call if and only if it is a name, blanks, and a group.
import Worksheet.Proofs.Expression.Grammar
import Worksheet.Proofs.Text.Character

namespace Worksheet.Expression

theorem isBlank_of_isNamePart {c : Char} (h : isNamePart c = true) : Text.isBlank c = false := by
  cases hb : Text.isBlank c with
  | false => rfl
  | true =>
    have hno := Text.forall_blank (p := fun c => isNamePart c = false) (by decide) hb
    rw [h] at hno
    cases hno

/-- A call is a name, blanks, and a group. -/
theorem eq_of_callOf? {cs name args : List Char} (h : callOf? cs = some (name, args)) :
    IsName name ∧ ∃ sp, Text.AllBlank sp ∧ cs = name ++ sp ++ '(' :: (args ++ [')']) := by
  unfold callOf? at h
  split at h
  · cases h
  · rename_i c rest
    split at h
    · rename_i hstart
      rw [Option.map_eq_some_iff] at h
      obtain ⟨inside, hgroup, he⟩ := h
      cases he
      have hpart : isNamePart c = true := by
        unfold isNamePart
        rw [hstart]
        rfl
      refine ⟨⟨c, rest.takeWhile isNamePart, ?_, hstart, fun x hx => List.mem_takeWhile_imp hx⟩, ?_⟩
      · rw [List.takeWhile_cons_of_pos hpart]
      · obtain ⟨sp, hsp, htrim⟩ := Text.exists_trimStart ((c :: rest).dropWhile isNamePart)
        refine ⟨sp, hsp, ?_⟩
        rw [← eq_of_group? hgroup, List.append_assoc, ← htrim, List.takeWhile_append_dropWhile]
    · cases h

/-- A name, blanks and a balanced group are a call. -/
theorem callOf?_call {name sp args : List Char} (hname : IsName name) (hsp : Text.AllBlank sp)
    (hargs : Balanced args) :
    callOf? (name ++ sp ++ '(' :: (args ++ [')'])) = some (name, args) := by
  have hstop : (sp ++ '(' :: (args ++ [')'])).takeWhile isNamePart = [] ∧
      (sp ++ '(' :: (args ++ [')'])).dropWhile isNamePart = sp ++ '(' :: (args ++ [')']) := by
    cases sp with
    | nil => exact ⟨rfl, rfl⟩
    | cons b sp =>
      have hb : isNamePart b = false := by
        cases hpart : isNamePart b with
        | false => rfl
        | true =>
          have hno := isBlank_of_isNamePart hpart
          rw [hsp b (by simp)] at hno
          cases hno
      simp [hb]
  have hparts := hname.isNamePart
  obtain ⟨c, rest, rfl, hstart, -⟩ := hname
  have hgroup : group? (Text.trimStart (sp ++ '(' :: (args ++ [')']))) = some args := by
    rw [Text.trimStart_append hsp, Text.trimStart_of_startsBare]
    · exact group?_of_balanced hargs
    · exact Text.startsBare_cons _ (by decide)
  have hshape : c :: rest ++ sp ++ '(' :: (args ++ [')']) =
      c :: (rest ++ (sp ++ '(' :: (args ++ [')']))) := by simp
  unfold callOf?
  rw [hshape]
  dsimp only
  rw [if_pos hstart, ← List.cons_append, List.dropWhile_append_of_pos hparts, hstop.2, hgroup,
    List.takeWhile_append_of_pos hparts, hstop.1, List.append_nil]
  rfl

theorem balanced_of_callOf? {cs name args : List Char} (h : callOf? cs = some (name, args)) :
    Balanced args := by
  unfold callOf? at h
  split at h
  · cases h
  · split at h
    · rw [Option.map_eq_some_iff] at h
      obtain ⟨inside, hgroup, he⟩ := h
      cases he
      exact balanced_of_group? hgroup
    · cases h

/-- A text is a call if and only if it is a name, blanks, and a balanced text
in brackets. -/
theorem callOf?_eq_some_iff {cs name args : List Char} :
    callOf? cs = some (name, args) ↔
      IsName name ∧ Balanced args ∧
        ∃ sp, Text.AllBlank sp ∧ cs = name ++ sp ++ '(' :: (args ++ [')']) := by
  constructor
  · intro h
    obtain ⟨hname, hshape⟩ := eq_of_callOf? h
    exact ⟨hname, balanced_of_callOf? h, hshape⟩
  · rintro ⟨hname, hargs, sp, hsp, rfl⟩
    exact callOf?_call hname hsp hargs

theorem callOf?_eq_none {cs : List Char} (h : '(' ∉ cs) : callOf? cs = none := by
  cases hc : callOf? cs with
  | none => rfl
  | some p =>
    obtain ⟨-, sp, -, he⟩ := eq_of_callOf? hc
    exact absurd (by rw [he]; simp) h

theorem callOf?_cons_eq_none {c : Char} (rest : List Char) (h : isNameStart c = false) :
    callOf? (c :: rest) = none := by
  unfold callOf?
  dsimp only
  rw [if_neg (by simp [h])]

end Worksheet.Expression
