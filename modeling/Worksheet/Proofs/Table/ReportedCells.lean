-- The report and the grid. After a recalculation that comes to its end, the
-- report counts the cells that the calculated columns show and those of them
-- that fail, and lists the columns that fail for a cycle.
import Worksheet.Proofs.Table.FailedCells
import Worksheet.Proofs.Table.Recalculation
import Mathlib.Data.Set.Card

namespace Worksheet

/-! ## What the grid shows -/

/-- The row fails for a cycle. -/
def Column.waitsAt (c : Column) (row : Int) : Bool :=
  match c.outcomeAt row with
  | .ok (.failure f) => decide (f.kind = .circularReference)
  | _ => false

namespace Table

/-- A cell of a calculated column, in one of the rows of the table. -/
def CalculatedCell (t : Table) (cell : Nat × Int) : Prop :=
  (∃ c, t.columns[cell.1]? = some c ∧ c.isCalculated = true) ∧ 0 ≤ cell.2 ∧ cell.2 ≤ t.lastRow

/-- The cells of the calculated columns whose outcome is a failure. -/
def failedCells (t : Table) : Set (Nat × Int) :=
  {cell | t.CalculatedCell cell ∧ ∃ f, t.outcome cell.2 (cell.1 : Nat) = .ok (.failure f)}

/-- The calculated columns all of whose cells fail for a cycle. -/
def waitingColumns (t : Table) : List Column :=
  t.columns.filter fun c => c.isCalculated && t.rowIndices.all c.waitsAt

/-- The report tells what the grid shows, and a column fails for a cycle in
all its rows or in none. -/
structure Describes (report : Report) (t : Table) : Prop where
  lastRow : report.lastRow = t.lastRow
  cells : report.cells = (t.columns.countP Column.isCalculated * (t.lastRow + 1) : Nat)
  failedCells : report.failedCells = (t.failedCells.ncard : Nat)
  failedCells_le : report.failedCells ≤ report.cells
  blockedColumns : report.blockedColumns = t.waitingColumns.map Column.name
  whole : ∀ c ∈ t.columns, c.isCalculated = true →
    ∀ row ∈ t.rowIndices, c.waitsAt row = true → c ∈ t.waitingColumns

/-! ## What the cells hold at the end -/

/-- After a run without a fault its cells hold outcomes, and none of these is
a failure for a cycle. -/
theorem holds_foldl_step {p : Progress} {cells : List (Nat × Int)}
    (hcolumn : ∀ cell ∈ cells, ∃ c, p.table.columns[cell.1]? = some c)
    (hdone : (cells.foldl Progress.step p).fault? = none) :
    ∀ cell ∈ cells, ∃ result, (cells.foldl Progress.step p).table.Holds cell.1 cell.2 result ∧
      ∀ f, result = .failure f → f.kind ≠ .circularReference := by
  induction cells using List.reverseRecOn with
  | nil => simp
  | append_singleton cells last ih =>
    rw [List.foldl_append, List.foldl_cons, List.foldl_nil] at hdone ⊢
    obtain ⟨hbefore, failed, heval⟩ := step_fault?_eq_none hdone
    have hcells := ih (fun cell hcell => hcolumn cell (List.mem_append_left _ hcell)) hbefore
    obtain ⟨hframe, -⟩ := foldl_step_spec p cells
    obtain ⟨c, hc⟩ := hcolumn last (by simp)
    obtain ⟨d, hd, -⟩ := exists_of_shape_eq hframe.shape.symm hc
    obtain ⟨vars, result, -, houtcome, -, hw⟩ := evaluateCell_spec heval hd
    intro cell hcell
    by_cases he : cell = last
    · subst he
      refine ⟨result, hw.holds, ?_⟩
      rintro f rfl
      exact Evaluator.evaluate_failure_kind houtcome
    · have hmem : cell ∈ cells := by simpa [he] using hcell
      obtain ⟨earlier, hholds, hkind⟩ := hcells cell hmem
      exact ⟨earlier, hholds.of_stored (hw.kept cell.1 cell.2 he), hkind⟩

/-- After a pass to its end the cells of the order hold outcomes, and none of
these is a failure for a cycle. -/
theorem holds_pass_of_order {t : Table} (hdone : t.pass.fault? = none) {i : Nat} {row : Int}
    (hi : i ∈ t.plan.order) (hrow : row ∈ t.rowIndices) :
    ∃ result, t.pass.table.Holds i row result ∧
      ∀ f, result = .failure f → f.kind ≠ .circularReference := by
  refine holds_foldl_step (fun cell hcell => ?_) hdone (i, row)
    ((mem_cellsOf t t.plan.order i row).mpr ⟨hi, hrow⟩)
  obtain ⟨hframe, -⟩ := t.blockedFailed_spec
  have ho := ((mem_cellsOf t t.plan.order cell.1 cell.2).mp hcell).1
  obtain ⟨c, hc, -⟩ := (mem_calculatedPositions t cell.1).mp (t.order_subset ho)
  obtain ⟨d, hd, -⟩ := exists_of_shape_eq hframe.shape.symm hc
  exact ⟨d, hd⟩

/-- After a pass to its end each cell of a calculated column holds an outcome,
and it is a failure for a cycle in the blocked columns alone. -/
theorem holds_pass {t : Table} (hdone : t.pass.fault? = none) {i : Nat} {row : Int}
    (hi : i ∈ t.calculatedPositions) (hrow : row ∈ t.rowIndices) :
    ∃ result, t.pass.table.Holds i row result ∧
      ((∃ f, result = .failure f ∧ f.kind = .circularReference) ↔ i ∈ t.plan.blocked) := by
  rcases List.mem_append.mp (t.plan_perm.mem_iff.mpr hi) with hb | ho
  · obtain ⟨c, hc, -⟩ := (mem_calculatedPositions t i).mp hi
    exact ⟨_, holds_pass_of_blocked hb hc hrow, fun _ => hb, fun _ => ⟨_, rfl, rfl⟩⟩
  · obtain ⟨result, hholds, hkind⟩ := holds_pass_of_order hdone ho hrow
    refine ⟨result, hholds, ?_, fun hb => ?_⟩
    · rintro ⟨f, hf, hcycle⟩
      exact absurd hcycle (hkind f hf)
    · exact absurd rfl ((List.nodup_append.mp t.plan_nodup).2.2 i hb i ho)

/-! ## Columns by their positions -/

/-- Positions in order that are those of the columns with a property give
these columns, in order. -/
theorem filterMap_getElem?_of_positions {columns : List Column} {p : Column → Bool}
    {positions : List Nat} (hsorted : positions.Pairwise (· < ·))
    (hmem : ∀ i, i ∈ positions ↔ ∃ c, columns[i]? = some c ∧ p c = true) :
    positions.filterMap (fun i => columns[i]?) = columns.filter p := by
  have hall : (columns.zipIdx.map Prod.snd).Pairwise (· < ·) := by
    rw [List.zipIdx_map_snd]
    exact List.pairwise_lt_range'
  have hpositions : positions = (columns.zipIdx.filter fun q => p q.1).map Prod.snd := by
    refine hsorted.eq_of_mem_iff (hall.sublist (List.filter_sublist.map _)) fun i => ?_
    rw [hmem]
    simp only [List.mem_map, List.mem_filter, Prod.exists, List.mem_zipIdx_iff_getElem?,
      exists_eq_right]
  have hcolumns : ∀ q ∈ columns.zipIdx.filter fun q => p q.1,
      ((fun i => columns[i]?) ∘ Prod.snd) q = some q.1 :=
    fun q hq => List.mem_zipIdx_iff_getElem?.mp (List.mem_filter.mp hq).1
  calc positions.filterMap (fun i => columns[i]?)
      = (columns.zipIdx.filter fun q => p q.1).filterMap (some ∘ Prod.fst) := by
        rw [hpositions, List.filterMap_map, List.filterMap_congr hcolumns]
        rfl
    _ = (columns.zipIdx.map Prod.fst).filter p := by
        rw [List.filterMap_eq_map, List.filter_map]
        rfl
    _ = columns.filter p := by rw [List.zipIdx_map_fst]

theorem namesAt_eq (t : Table) (positions : List Nat) :
    t.namesAt positions = (positions.filterMap fun i => t.columns[i]?).map Column.name := by
  unfold namesAt
  rw [List.map_filterMap]

/-- The blocked columns stand in the plan by their positions. -/
theorem blocked_pairwise (t : Table) : t.plan.blocked.Pairwise (· < ·) := by
  cases hs : t.schedule with
  | declaration =>
    unfold plan
    rw [hs]
    exact List.Pairwise.nil
  | dependency =>
    have hle : t.plan.blocked.Pairwise (· ≤ ·) := by
      rw [(plan_of_dependency hs).2]
      exact List.pairwise_mergeSort' _ _
    exact (hle.and (List.nodup_append.mp t.plan_nodup).1).imp fun h => Nat.lt_of_le_of_ne h.1 h.2

/-! ## The counts -/

theorem countP_isCalculated (t : Table) :
    t.columns.countP Column.isCalculated = t.calculatedPositions.length := by
  unfold calculatedPositions
  rw [List.length_map, ← List.countP_eq_length_filter]
  conv_lhs => rw [← List.zipIdx_map_fst 0 t.columns, List.countP_map]
  rfl

theorem calculatedCell_iff (t : Table) (cell : Nat × Int) :
    t.CalculatedCell cell ↔ cell ∈ t.cellsOf t.calculatedPositions := by
  rw [mem_cellsOf, mem_calculatedPositions, mem_rowIndices]
  rfl

/-- The failures of a table in which all cells of the calculated columns hold
outcomes are those that are counted. -/
theorem ncard_failedCells {t : Table}
    (hholds : ∀ i ∈ t.calculatedPositions, ∀ row ∈ t.rowIndices, ∃ result, t.Holds i row result) :
    t.failedCells.ncard = (t.cellsOf t.calculatedPositions).countP t.failedAt := by
  have hset : t.failedCells = ((t.cellsOf t.calculatedPositions).filter t.failedAt).toFinset := by
    ext cell
    unfold failedCells
    rw [Set.mem_ofPred_eq, calculatedCell_iff, SetLike.mem_coe, List.mem_toFinset, List.mem_filter]
    refine and_congr_right fun hcell => ?_
    obtain ⟨hi, hrow⟩ := (mem_cellsOf t _ cell.1 cell.2).mp hcell
    obtain ⟨result, hresult⟩ := hholds _ hi _ hrow
    obtain ⟨o, ho, hfail⟩ := hresult.outcome
    rw [hresult.failedAt, ho]
    cases result with
    | value v =>
      cases o with
      | value w => simp [Outcome.isOk]
      | failure g => cases hfail
    | failure f =>
      cases o with
      | value w => cases hfail
      | failure g => simp [Outcome.isOk]
  rw [hset, Set.ncard_coe_finset, List.toFinset_card_of_nodup, List.countP_eq_length_filter]
  exact (t.cellsOf_nodup t.calculatedPositions_nodup).filter _

/-- Whether a row fails for a cycle is a matter of the outcome that it
holds. -/
theorem waitsAt_of_holds {c : Column} {row : Int} {result : Outcome} (h : c.Holds row result) :
    c.waitsAt row = true ↔ ∃ f, result = .failure f ∧ f.kind = .circularReference := by
  unfold Column.waitsAt
  cases result with
  | value v =>
    obtain ⟨text, -, ho⟩ := h.outcomeAt_value
    simp [ho]
  | failure f => simp [h.outcomeAt_failure]

/-! ## The columns that wait -/

section

variable {t : Table}

/-- After a pass to its end, a row of a calculated column fails for a cycle
if and only if the column is blocked. -/
theorem waitsAt_pass_iff (hdone : t.pass.fault? = none) {i : Nat} {c : Column}
    (hc : t.pass.table.columns[i]? = some c) (hi : i ∈ t.calculatedPositions) {row : Int}
    (hrow : row ∈ t.rowIndices) : c.waitsAt row = true ↔ i ∈ t.plan.blocked := by
  obtain ⟨result, ⟨d, hd, hholds⟩, hblocked⟩ := holds_pass hdone hi hrow
  rw [hc, Option.some.injEq] at hd
  subst hd
  rw [waitsAt_of_holds hholds, hblocked]

/-- The columns that wait are those at the blocked positions. -/
theorem mem_blocked_iff_waits (hdone : t.pass.fault? = none) (i : Nat) :
    i ∈ t.plan.blocked ↔ ∃ c, t.pass.table.columns[i]? = some c ∧
      (c.isCalculated && t.pass.table.rowIndices.all c.waitsAt) = true := by
  have hframe := (t.pass_cells).1
  have hrows : t.pass.table.rowIndices = t.rowIndices := rowIndices_of_lastRow_eq hframe.lastRow
  have hfirst : (0 : Int) ∈ t.rowIndices := (mem_rowIndices t 0).mpr ⟨Int.le_refl 0, by omega⟩
  simp only [Bool.and_eq_true, List.all_eq_true, hrows]
  constructor
  · intro hb
    have hi := t.blocked_subset hb
    obtain ⟨d, hd, hcalc⟩ := (mem_calculatedPositions t i).mp hi
    obtain ⟨c, hc, hsame⟩ := exists_of_shape_eq hframe.shape.symm hd
    refine ⟨c, hc, ?_, fun row hrow => (waitsAt_pass_iff hdone hc hi hrow).mpr hb⟩
    rw [Column.isCalculated_eq_of_withoutRows hsame, hcalc]
  · rintro ⟨c, hc, hcalc, hall⟩
    have hi := mem_calculatedPositions_of_shape_eq hframe.shape hc hcalc
    exact (waitsAt_pass_iff hdone hc hi hfirst).mp (hall 0 hfirst)

/-- The report of a pass to its end tells what the table shows then. -/
theorem describes_pass (hdone : t.pass.fault? = none) :
    Describes t.passReport t.pass.table := by
  have hframe := (t.pass_cells).1
  have hcalc : t.pass.table.calculatedPositions = t.calculatedPositions := by
    rw [calculatedPositions_eq, calculatedPositions_eq, hframe.shape]
  have hrows : t.pass.table.rowIndices = t.rowIndices := rowIndices_of_lastRow_eq hframe.lastRow
  have hplan : t.plan.blocked.length + t.plan.order.length = t.calculatedPositions.length := by
    rw [← List.length_append, t.plan_perm.length_eq]
  have hcells : t.passReport.cells =
      (t.pass.table.columns.countP Column.isCalculated * (t.pass.table.lastRow + 1) : Nat) := by
    rw [countP_isCalculated, hcalc, hframe.lastRow, ← hplan]
    rfl
  have hfailed : t.pass.failed = t.pass.table.failedCells.ncard := by
    rw [failed_pass hdone, ncard_failedCells, hcalc, hframe.cellsOf]
    intro i hi row hrow
    rw [hcalc] at hi
    rw [hrows] at hrow
    obtain ⟨result, hholds, -⟩ := holds_pass hdone hi hrow
    exact ⟨result, hholds⟩
  have hnames : t.passReport.blockedColumns = t.pass.table.waitingColumns.map Column.name := by
    unfold passReport waitingColumns
    dsimp only
    rw [← filterMap_getElem?_of_positions t.blocked_pairwise (mem_blocked_iff_waits hdone),
      ← namesAt_eq, namesAt_of_shape_eq hframe.shape]
  refine ⟨?_, hcells, ?_, ?_, hnames, fun c hmem hc row hrow hwaits => ?_⟩
  · exact congrArg Int.ofNat hframe.lastRow.symm
  · exact congrArg Int.ofNat hfailed
  · have hle : t.pass.failed ≤ t.calculatedPositions.length * (t.lastRow + 1) := by
      rw [failed_pass hdone, ← length_cellsOf]
      exact List.countP_le_length
    rw [← hplan] at hle
    exact Int.ofNat_le.mpr hle
  · obtain ⟨i, hi⟩ := List.mem_iff_getElem?.mp hmem
    have hin : i ∈ t.calculatedPositions := hcalc ▸ (mem_calculatedPositions _ i).mpr ⟨c, hi, hc⟩
    rw [hrows] at hrow
    have hb := (waitsAt_pass_iff hdone hi hin hrow).mp hwaits
    obtain ⟨d, hd, hwaits⟩ := (mem_blocked_iff_waits hdone i).mp hb
    rw [hi, Option.some.injEq] at hd
    subst hd
    exact List.mem_filter.mpr ⟨hmem, hwaits⟩

end

/-! ## The law -/

/-- Whatever was done with a table before, a recalculation that comes to its
end reports what the grid shows then, and keeps the report. By declaration no
column fails for a cycle. A recalculation can only stop at a value of the data
or of the engine that has no text. -/
theorem report_describes_grid (data : RawData) (schedule : Schedule) (ev : Evaluator)
    (changes : List Change) :
    let t := (ofData data schedule ev).after changes
    match t.recalculate.report with
    | .error f =>
      ∃ v, v.display = .error f ∧ (RawValue data v ∨ ∃ text, ev.engine text = .ok v)
    | .ok report =>
      t.recalculate.table.report? = some report ∧ Describes report t.recalculate.table ∧
        (schedule = .declaration → report.blockedColumns = []) := by
  obtain ⟨hkept, hdata, hschedule, hev⟩ := after_spec data schedule ev changes
  generalize (ofData data schedule ev).after changes = t at *
  subst hdata
  subst hev
  dsimp only
  cases hr : t.recalculate.report with
  | error f => exact origin_of_recalculate_error hkept hr
  | ok report =>
    obtain ⟨hdone, rfl, htable⟩ := pass_of_report hr
    dsimp only
    rw [htable]
    obtain ⟨hlast, hcells, hfailed, hle, hblocked, hwhole⟩ := describes_pass hdone
    refine ⟨rfl, ⟨hlast, hcells, hfailed, hle, hblocked, hwhole⟩, fun hs => ?_⟩
    have hplan : t.bindData.plan.blocked = [] := by
      unfold plan
      rw [show t.bindData.schedule = .declaration from hschedule.trans hs]
    unfold passReport
    rw [hplan]
    rfl

end Table

end Worksheet
