-- The count of a report. A pass counts each failure as it writes it, and it
-- writes each cell once. So the number that it reports is that of the cells
-- of calculated columns that have a failure when it ends.
import Worksheet.Proofs.Table.RowOrder

namespace Worksheet.Table

/-! ## Cells with a failure -/

/-- The cell has a failure. -/
def failedAt (t : Table) (cell : Nat × Int) : Bool :=
  ((t.stored cell.1 cell.2).bind Prod.snd).isSome

theorem failedAt_of_stored {t t' : Table} {cell : Nat × Int}
    (h : t'.stored cell.1 cell.2 = t.stored cell.1 cell.2) :
    t'.failedAt cell = t.failedAt cell := by
  unfold failedAt
  rw [h]

theorem Holds.failedAt {t : Table} {i : Nat} {row : Int} {result : Outcome}
    (h : t.Holds i row result) : t.failedAt (i, row) = !result.isOk := by
  obtain ⟨c, hc, hholds⟩ := h
  unfold Table.failedAt stored Column.stored
  rw [hc, Option.map_some, Option.bind_some, hholds.failure]
  cases result with
  | value v => rfl
  | failure f => rfl

/-- Evaluating a cell tells whether it has a failure then, and leaves the
other cells as they are. -/
theorem failedAt_of_evaluateCell {t t' : Table} {cell : Nat × Int} {failed : Bool}
    (h : t.evaluateCell cell.1 cell.2 = .ok (t', failed)) :
    t'.failedAt cell = failed ∧ ∀ other, other ≠ cell → t'.failedAt other = t.failedAt other := by
  cases hc : t.columns[cell.1]? with
  | none =>
    rw [evaluateCell_eq_ok_of_none h hc]
    unfold evaluateCell at h
    rw [hc] at h
    cases h
    refine ⟨?_, fun _ _ => rfl⟩
    unfold failedAt stored
    rw [hc]
    rfl
  | some c =>
    obtain ⟨-, result, -, -, rfl, hw⟩ := evaluateCell_spec h hc
    exact ⟨hw.holds.failedAt, fun other hne => failedAt_of_stored (hw.kept other.1 other.2 hne)⟩

/-! ## The count -/

/-- A run over distinct cells counts those that have a failure at its end. -/
theorem failed_foldl_step {p : Progress} {cells : List (Nat × Int)} (hnodup : cells.Nodup)
    (hdone : (cells.foldl Progress.step p).fault? = none) :
    (cells.foldl Progress.step p).failed =
      p.failed + cells.countP (cells.foldl Progress.step p).table.failedAt := by
  induction cells using List.reverseRecOn with
  | nil => rfl
  | append_singleton cells cell ih =>
    rw [List.foldl_append, List.foldl_cons, List.foldl_nil] at hdone ⊢
    obtain ⟨hnodup', -, hdisj⟩ := List.nodup_append.mp hnodup
    have hbefore := ih hnodup' (step_fault?_eq_none hdone).1
    generalize cells.foldl Progress.step p = q at *
    rcases step_cases q cell with ⟨f, hf, hs⟩ | ⟨f, -, hs⟩ | ⟨t, failed, -, he, hs⟩
    · rw [hs, hf] at hdone
      cases hdone
    · rw [hs] at hdone
      cases hdone
    · obtain ⟨hcell, hothers⟩ := failedAt_of_evaluateCell he
      have hcount : cells.countP t.failedAt = cells.countP q.table.failedAt := by
        apply List.countP_congr
        intro other hmem
        rw [hothers other fun e => hdisj other hmem cell (by simp) e]
      rw [hs, List.countP_append, List.countP_singleton, hcount, hcell, hbefore]
      cases failed with
      | true => simp only [if_true]; omega
      | false => simp

theorem length_cellsOf (t : Table) (positions : List Nat) :
    (t.cellsOf positions).length = positions.length * (t.lastRow + 1) := by
  unfold cellsOf rowIndices
  simp [List.length_flatMap]

theorem cellsOf_perm (t : Table) {positions positions' : List Nat}
    (h : positions.Perm positions') : (t.cellsOf positions).Perm (t.cellsOf positions') :=
  h.flatMap_right _

/-- In the end the cells of the blocked columns hold the failure for their
cycle. -/
theorem holds_pass_of_blocked {t : Table} {i : Nat} {row : Int} {c : Column}
    (hi : i ∈ t.plan.blocked) (hc : t.columns[i]? = some c) (hrow : row ∈ t.rowIndices) :
    t.pass.table.Holds i row (.failure (cycleFailure c)) := by
  obtain ⟨-, hfails, -⟩ := t.blockedFailed_spec
  obtain ⟨-, hwritten⟩ := foldl_step_spec
    ⟨t.blockedFailed, t.plan.blocked.length * (t.lastRow + 1), none⟩ t.cellsToDo
  rcases hwritten i row with hs | ⟨hmem, -⟩
  · exact (hfails i hi c hc row hrow).of_stored hs
  · -- a blocked column has no turn
    have hio := ((mem_cellsOf t t.plan.order i row).mp hmem).1
    exact absurd rfl ((List.nodup_append.mp t.plan_nodup).2.2 i hi i hio)

theorem failedAt_pass_of_blocked {t : Table} {cell : Nat × Int}
    (h : cell ∈ t.cellsOf t.plan.blocked) : t.pass.table.failedAt cell = true := by
  obtain ⟨i, row⟩ := cell
  obtain ⟨hi, hrow⟩ := (mem_cellsOf t _ _ _).mp h
  obtain ⟨c, hc, -⟩ := (mem_calculatedPositions t i).mp (t.blocked_subset hi)
  exact (holds_pass_of_blocked hi hc hrow).failedAt

/-- A pass to its end counts the cells of calculated columns that have a
failure then. -/
theorem failed_pass {t : Table} (hdone : t.pass.fault? = none) :
    t.pass.failed = (t.cellsOf t.calculatedPositions).countP t.pass.table.failedAt := by
  have horder : t.cellsToDo.Nodup := t.cellsOf_nodup (List.nodup_append.mp t.plan_nodup).2.1
  have hblocked : (t.cellsOf t.plan.blocked).countP t.pass.table.failedAt =
      t.plan.blocked.length * (t.lastRow + 1) := by
    rw [List.countP_eq_length.mpr fun cell hcell => failedAt_pass_of_blocked hcell, length_cellsOf]
  rw [← (t.cellsOf_perm t.plan_perm).countP_eq, cellsOf_append, List.countP_append, hblocked]
  exact failed_foldl_step horder hdone

end Worksheet.Table
