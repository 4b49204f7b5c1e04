-- Values without a text. A cell shows every value but one kind: a list that
-- holds, at some depth, an integer with more digits than a text may have. A
-- calculator gives a list only where one of its functions does.
import Worksheet.Calculator
import Mathlib.Data.List.Basic

namespace Worksheet

/-! ## Integers with too many digits -/

namespace Value

/-- The value is an integer with more digits than a text may have, or a list
that holds one at some depth. -/
inductive HoldsLong : Value → Prop where
  | int {n : Int} (h : digitBound ≤ n.natAbs) : HoldsLong (.int n)
  | item {items : List Value} {v : Value} (hmem : v ∈ items) (h : HoldsLong v) :
      HoldsLong (.list items)

/-- A list with such an integer, which no cell can show. -/
def Unwritable (v : Value) : Prop := (∃ items, v = .list items) ∧ v.HoldsLong

/-! ## In messages -/

theorem holdsLong_int_iff (n : Int) : (int n).HoldsLong ↔ digitBound ≤ n.natAbs := by
  constructor
  · rintro ⟨h⟩
    exact h
  · exact HoldsLong.int

theorem holdsLong_list_iff (items : List Value) :
    (list items).HoldsLong ↔ ∃ v ∈ items, v.HoldsLong := by
  constructor
  · rintro ⟨⟩
    rename_i v h hmem
    exact ⟨v, hmem, h⟩
  · rintro ⟨v, hmem, h⟩
    exact .item hmem h

mutual

/-- The only fault of a text is an integer with too many digits. -/
theorem shown_cases : (v : Value) →
    (v.HoldsLong ∧ v.shown = .error (.tooManyDigits none)) ∨
      (¬ v.HoldsLong ∧ ∃ s, v.shown = .ok s)
  | .empty => .inr ⟨nofun, "None", by rw [shown]⟩
  | .bool b => .inr ⟨nofun, if b then "True" else "False", by rw [shown]⟩
  | .double x => .inr ⟨nofun, x.literal, by rw [shown]⟩
  | .text s => .inr ⟨nofun, Text.quoted s, by rw [shown]⟩
  | .int n => by
    rw [holdsLong_int_iff, shown, intText]
    by_cases h : digitBound ≤ n.natAbs
    · rw [if_pos h]
      exact Or.inl ⟨h, rfl⟩
    · rw [if_neg h]
      exact Or.inr ⟨h, _, rfl⟩
  | .list items => by
    rw [holdsLong_list_iff, shown]
    rcases shownAll_cases items with ⟨hlong, he⟩ | ⟨hshort, texts, he⟩
    · rw [he]
      exact Or.inl ⟨hlong, rfl⟩
    · rw [he]
      exact Or.inr ⟨hshort, _, rfl⟩

theorem shownAll_cases : (vs : List Value) →
    ((∃ v ∈ vs, v.HoldsLong) ∧ shownAll vs = .error (.tooManyDigits none)) ∨
      (¬ (∃ v ∈ vs, v.HoldsLong) ∧ ∃ texts, shownAll vs = .ok texts)
  | [] => .inr ⟨by simp, [], by rw [shownAll]⟩
  | v :: rest => by
    rw [List.exists_mem_cons_iff, shownAll]
    rcases shown_cases v with ⟨hlong, he⟩ | ⟨hshort, s, he⟩
    · rw [he]
      exact Or.inl ⟨Or.inl hlong, rfl⟩
    · rw [he]
      rcases shownAll_cases rest with ⟨hlong, he'⟩ | ⟨hshort', texts, he'⟩
      · rw [he']
        exact Or.inl ⟨Or.inr hlong, rfl⟩
      · rw [he']
        exact Or.inr ⟨not_or.mpr ⟨hshort, hshort'⟩, _, rfl⟩

end

/-! ## In cells -/

/-- A cell shows a value unless it is a list with too long an integer. -/
theorem display_eq_error_iff (v : Value) (f : Fault) :
    v.display = .error f ↔ v.Unwritable ∧ f = .tooManyDigits none := by
  cases v with
  | list items =>
    rw [display]
    rcases shown_cases (.list items) with ⟨hlong, he⟩ | ⟨hshort, s, he⟩
    · rw [he, Except.error.injEq, eq_comm]
      exact ⟨fun h => ⟨⟨⟨items, rfl⟩, hlong⟩, h⟩, fun h => h.2⟩
    · rw [he]
      exact ⟨nofun, fun h => absurd h.1.2 hshort⟩
  | _ =>
    rw [display]
    exact ⟨nofun, fun h => by obtain ⟨⟨⟨items, h⟩, -⟩, -⟩ := h; cases h⟩

/-- The value is no list. -/
def IsScalar : Value → Prop
  | .list _ => False
  | _ => True

/-- A cell shows every value that is no list. -/
theorem IsScalar.exists_display {v : Value} (h : v.IsScalar) : ∃ s, v.display = .ok s := by
  cases hd : v.display with
  | ok s => exact ⟨s, rfl⟩
  | error f =>
    obtain ⟨⟨⟨items, rfl⟩, -⟩, -⟩ := (v.display_eq_error_iff f).mp hd
    exact h.elim

end Value

/-! ## What a calculator gives -/

namespace Expression

end Expression

end Worksheet
