-- The extent of a table. The last row only grows, and every row that a column
-- holds lies between zero and the last one. A recalculation sets the last row
-- to the largest of the data that is bound then, and fills the calculated
-- columns down to it.
import Worksheet.Proofs.Table.ReportedCells

namespace Worksheet.Table

/-! ## The largest bound row -/

/-- The number is the largest row of the data that is bound to columns, or
zero if no data is bound. -/
structure IsLastBoundRow (t : Table) (n : Nat) : Prop where
  le : ∀ i rows, i < t.columns.length → t.data.get? i = some rows → ∀ r ∈ rows.keys, r ≤ n
  reached : n = 0 ∨ ∃ i rows, i < t.columns.length ∧ t.data.get? i = some rows ∧ n ∈ rows.keys

theorem largest_mem (l : List Nat) : largest l = 0 ∨ largest l ∈ l := by
  induction l using List.reverseRecOn with
  | nil => exact Or.inl rfl
  | append_singleton l n ih =>
    have hmax : largest (l ++ [n]) = max (largest l) n := by simp [largest, List.foldl_append]
    rw [hmax, List.mem_append, List.mem_singleton]
    rcases Nat.le_total (largest l) n with hle | hle
    · rw [Nat.max_eq_right hle]
      exact Or.inr (Or.inr rfl)
    · rw [Nat.max_eq_left hle]
      exact ih.imp_right Or.inl

theorem isLastBoundRow_boundLastRow (t : Table) : t.IsLastBoundRow t.boundLastRow := by
  refine ⟨(t.boundLastRow_le_iff _).mp (Nat.le_refl _), ?_⟩
  unfold boundLastRow
  rcases largest_mem _ with hzero | hmem
  · exact Or.inl hzero
  · obtain ⟨i, hi, he⟩ := List.mem_map.mp hmem
    rw [← he]
    cases hrows : t.data.get? i with
    | none => exact Or.inl rfl
    | some rows =>
      exact (largest_mem rows.keys).imp_right fun hin => ⟨i, rows, List.mem_range.mp hi, hrows, hin⟩

/-- A recalculation takes the last row from the data that is bound. -/
theorem lastRow_recalculate (t : Table) : t.recalculate.table.lastRow = t.boundLastRow :=
  t.frame_recalculate.lastRow

theorem boundLastRow_recalculate (t : Table) :
    t.recalculate.table.boundLastRow = t.boundLastRow := by
  rw [t.frame_recalculate.boundLastRow, boundLastRow_bindData]

/-! ## The last row grows -/

theorem lastRow_le_change {t : Table} (h : Kept t) (ch : Change) :
    t.lastRow ≤ (t.change ch).lastRow := by
  cases ch with
  | append columns => exact Nat.le_refl _
  | replace old column =>
    unfold Table.change Table.replace
    dsimp only
    cases t.position old with
    | ok i => exact Nat.le_refl _
    | error f => exact Nat.le_refl _
  | recalculate =>
    have hlast : (t.change .recalculate).lastRow = t.boundLastRow := t.lastRow_recalculate
    rw [hlast]
    exact h.lastRow_le

theorem Kept.after {t : Table} (h : Kept t) (changes : List Change) :
    Kept (t.after changes) ∧ t.lastRow ≤ (t.after changes).lastRow := by
  induction changes using List.reverseRecOn with
  | nil => exact ⟨h, Nat.le_refl _⟩
  | append_singleton changes ch ih =>
    obtain ⟨hkept, hle⟩ := ih
    rw [after_snoc]
    exact ⟨hkept.change ch, Nat.le_trans hle (lastRow_le_change hkept ch)⟩

/-! ## Rows of the columns -/

/-- No column holds a value or a failure outside the rows of the table. -/
def RowsWithin (t : Table) : Prop :=
  ∀ (i : Nat) (c : Column), t.columns[i]? = some c →
    ∀ row, row ∈ c.rows.keys ∨ row ∈ c.failures.keys → 0 ≤ row ∧ row ≤ t.lastRow

theorem Kept.rowsWithin {t : Table} (h : Kept t) : t.RowsWithin := by
  intro i c hc row hrow
  have hkept := h.rows i c hc row
  rcases hrow with hmem | hmem
  · obtain ⟨v, hv⟩ := (OrderedMap.mem_keys_iff _ row).mp hmem
    exact hkept.range v hv
  · obtain ⟨f, hf⟩ := (OrderedMap.mem_keys_iff _ row).mp hmem
    exact hkept.range _ (hkept.failed f hf).2

/-- The column holds an outcome in each row of the table, and no other
rows. -/
def FilledDown (t : Table) (c : Column) : Prop :=
  (∀ row, row ∈ c.rows.keys ↔ 0 ≤ row ∧ row ≤ t.lastRow) ∧
    ∀ row ∈ c.rows.keys, ∃ result, c.Holds row result

/-- A recalculation to its end fills the calculated columns. -/
theorem filledDown_recalculate {t : Table} (h : Kept t) {report : Report}
    (hr : t.recalculate.report = .ok report) {i : Nat} {c : Column}
    (hc : t.recalculate.table.columns[i]? = some c) (hcalc : c.isCalculated = true) :
    t.recalculate.table.FilledDown c := by
  obtain ⟨hdone, -, htable⟩ := pass_of_report hr
  have hframe := t.frame_recalculate
  have hi := mem_calculatedPositions_of_shape_eq hframe.shape hc hcalc
  have hholds : ∀ row : Int, 0 ≤ row ∧ row ≤ t.recalculate.table.lastRow →
      ∃ result, c.Holds row result := by
    intro row hrow
    rw [hframe.lastRow, ← mem_rowIndices] at hrow
    obtain ⟨result, ⟨e, he, hresult⟩, -⟩ := holds_pass hdone hi hrow
    rw [htable] at hc
    rw [show t.bindData.pass.table.columns[i]? = some c from hc, Option.some.injEq] at he
    exact ⟨result, he ▸ hresult⟩
  have hkeys : ∀ row, row ∈ c.rows.keys ↔ 0 ≤ row ∧ row ≤ t.recalculate.table.lastRow := by
    refine fun row =>
      ⟨fun hmem => h.recalculate.rowsWithin i c hc row (Or.inl hmem), fun hrow => ?_⟩
    obtain ⟨result, hresult⟩ := hholds row hrow
    obtain ⟨text, -, hv⟩ := hresult.shown
    exact (OrderedMap.mem_keys_iff _ row).mpr ⟨_, hv⟩
  exact ⟨hkeys, fun row hmem => hholds row ((hkeys row).mp hmem)⟩

/-! ## The law -/

/-- In every state of a table over raw data, the columns hold no row outside
the table, and no change makes the table shorter. Right after a recalculation
the last row is the largest of the data that is bound, and the calculated
columns are filled down to it, unless the recalculation stops at a value of
the data or of the engine that has no text. -/
theorem rows_within_extent (data : RawData) (schedule : Schedule) (ev : Evaluator)
    (changes : List Change) :
    let t := (ofData data schedule ev).after changes
    t.RowsWithin ∧ (∀ more, t.lastRow ≤ (t.after more).lastRow) ∧
      t.recalculate.table.IsLastBoundRow t.recalculate.table.lastRow ∧
      match t.recalculate.report with
      | .error f =>
        ∃ v, v.display = .error f ∧ (RawValue data v ∨ ∃ text, ev.engine text = .ok v)
      | .ok _ =>
        ∀ (i : Nat) (c : Column), t.recalculate.table.columns[i]? = some c →
          c.isCalculated = true → t.recalculate.table.FilledDown c := by
  obtain ⟨hkept, hdata, -, hev⟩ := after_spec data schedule ev changes
  generalize (ofData data schedule ev).after changes = t at *
  subst hdata
  subst hev
  refine ⟨hkept.rowsWithin, fun more => (hkept.after more).2, ?_, ?_⟩
  · rw [lastRow_recalculate, ← boundLastRow_recalculate]
    exact isLastBoundRow_boundLastRow _
  · cases hr : t.recalculate.report with
    | error f => exact origin_of_recalculate_error hkept hr
    | ok report => exact fun i c hc hcalc => filledDown_recalculate hkept hr hc hcalc

end Worksheet.Table
