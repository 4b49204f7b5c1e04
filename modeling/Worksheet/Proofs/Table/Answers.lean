-- What a table answers. However its columns were added, replaced and
-- recalculated, each reading of a column that is there has an answer, and
-- what went wrong stands in the cell or the summary. Only integers with too
-- many digits are in the way. A list that holds one has no text, and it stops
-- a recalculation that comes upon it; a row that has one for its number cannot
-- tell that it is not set.
import Worksheet.Proofs.Display
import Worksheet.Proofs.Summary.Alike
import Worksheet.Proofs.Table.Recalculation

namespace Worksheet

/-! ## Summaries -/

/-- A summary has a text, and if it failed, the word for it. -/
def Summary.Typed (s : Summary) : Prop :=
  s.failure? = none ∨ s.failure? = some .aggregationFailed ∧ s.value = failedText

theorem Aggregation.summarise_typed [Reductions] (a : Aggregation) (rows : List Value) :
    (a.summarise rows).Typed := by
  unfold Aggregation.summarise
  split
  · exact Or.inl rfl
  · split
    · exact Or.inl rfl
    · exact Or.inr ⟨rfl, rfl⟩

namespace Table

/-! ## Answers -/

/-- The outcome of a row and what is shown of it: the text of a value, the word
for a failure, and nothing for a row that is not set. A row that is not set and
has too many digits has no outcome, and a list of the data with too long an
integer cannot be shown. -/
inductive Shows (data : RawData) (c : Column) (row : Int) :
    Except Fault Outcome → Except Fault String → Prop where
  | value {v : Value} {text : String} (h : v.display = .ok text) :
      Shows data c row (.ok (.value v)) (.ok text)
  | failure (f : Failure) : Shows data c row (.ok (.failure f)) (.ok failedText)
  | unset {f : Failure} (hrow : c.rows.get? row = none) (hdigits : row.natAbs < digitBound)
      (h : f.kind = .emptyResult) : Shows data c row (.ok (.failure f)) (.ok "")
  | untold (hrow : c.rows.get? row = none) (hdigits : digitBound ≤ row.natAbs) :
      Shows data c row (.error (.tooManyDigits none)) (.ok "")
  | unwritable {v : Value} (hraw : RawValue data v) (h : v.Unwritable) :
      Shows data c row (.ok (.value v)) (.error (.tooManyDigits none))

/-- The position is one of a column, counted from the first one or, below
zero, from behind the last. -/
def HasColumn (t : Table) (position : Int) : Prop :=
  -(t.columns.length : Int) ≤ position ∧ position < t.columns.length

/-- Each reading of a column that is there has an answer: its summary, the
outcome of each of its rows, and what the grid shows of this outcome or,
below the last row, of the summary. -/
structure Answers [Reductions] (t : Table) : Prop where
  summary : ∀ position, t.HasColumn position →
    ∃ s, t.summary position = .ok s ∧ s.Typed
  cell : ∀ position row, t.HasColumn position →
    ∃ c shown, t.column position = .ok c ∧ Shows t.data c row (t.outcome row position) shown ∧
      t.cell row position =
        if (t.lastRow : Int) < row then (t.summary position).map Cell.summary
        else shown.map Cell.text

/-! ## Rows -/

/-- A row that is kept shows its outcome. -/
theorem RowKept.shows {t : Table} {c : Column} {row : Int} (h : RowKept t c row) :
    Shows t.data c row (c.outcomeAt row) (c.textAt row) := by
  unfold Column.textAt
  cases hf : c.failures.get? row with
  | some f =>
    rw [Column.outcomeAt_eq_failure hf, (h.failed f hf).2]
    exact .failure f
  | none =>
    cases hv : c.rows.get? row with
    | none =>
      rw [Column.outcomeAt_eq_unset hf hv]
      split
      · rename_i hdigits
        exact .unset hv hdigits rfl
      · rename_i hdigits
        exact .untold hv (Nat.not_lt.mp hdigits)
    | some v =>
      rw [Column.outcomeAt_eq_value hf hv]
      dsimp only
      cases hd : v.display with
      | ok text => exact .value hd
      | error f =>
        obtain ⟨hlong, rfl⟩ := (v.display_eq_error_iff f).mp hd
        rcases h.origin v hv with ⟨s, rfl⟩ | hraw
        · cases hd
        · exact .unwritable hraw hlong

/-! ## Positions -/

theorem exists_column {t : Table} {position : Int} (h : t.HasColumn position) :
    ∃ (i : Nat) (c : Column), t.columns[i]? = some c ∧ t.column position = .ok c := by
  obtain ⟨hlow, hhigh⟩ := h
  obtain ⟨i, hi, hplace⟩ : ∃ i < t.columns.length, t.place position = .ok i := by
    unfold place
    dsimp only
    split
    · exact ⟨(position + t.columns.length).toNat, by omega, if_pos (by omega)⟩
    · exact ⟨position.toNat, by omega, if_pos (by omega)⟩
  refine ⟨i, t.columns[i], List.getElem?_eq_getElem hi, ?_⟩
  unfold column
  simp only [hplace, List.getElem?_eq_getElem hi]

/-- A table whose rows are kept answers. -/
theorem Kept.answers [Reductions] {t : Table} (h : Kept t) : t.Answers := by
  refine ⟨fun position hpos => ?_, fun position row hpos => ?_⟩
  · obtain ⟨i, c, -, hc⟩ := exists_column hpos
    refine ⟨c.summary, ?_, c.aggregation.summarise_typed c.rows.values⟩
    unfold Table.summary
    rw [hc]
    rfl
  · obtain ⟨i, c, hi, hc⟩ := exists_column hpos
    refine ⟨c, c.textAt row, hc, ?_, ?_⟩
    · unfold outcome
      rw [hc]
      exact (h.rows i c hi row).shows
    · unfold cell Table.summary
      rw [hc]
      rfl

/-! ## The law -/

section

attribute [local instance] Reductions.fromLeft

end

end Table

end Worksheet
