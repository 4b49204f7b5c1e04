-- A recalculation forgets the history of its table. Whatever was added,
-- replaced and recalculated before, it leaves what a new table leaves that is
-- made of the same data and the same columns and recalculated once: every
-- row that was written before is written again, in its old place.
import Worksheet.Proofs.Table.Recalculation
import Worksheet.Proofs.Table.RowOrder

open Relation

namespace Worksheet

/-! ## Columns that hold the same -/

/-- What a row keeps is a matter of the rows and the failures. -/
theorem Column.rows_eq_of_stored {c c' : Column} (hkeys : c'.rows.keys = c.rows.keys)
    (h : ∀ row, c'.stored row = c.stored row) : c'.rows = c.rows :=
  OrderedMap.eq_of_keys_of_get? hkeys fun row => (Prod.mk.inj (h row)).1

theorem Column.summary_eq [Reductions] {c c' : Column} (hsame : c'.withoutRows = c.withoutRows)
    (hrows : c'.rows = c.rows) : c'.summary = c.summary := by
  have haggregation : c'.withoutRows.aggregation = c.withoutRows.aggregation := by rw [hsame]
  unfold Column.summary
  rw [hrows]
  exact congrArg (fun a => a.summarise c.rows.values) haggregation

namespace Table

/-! ## Tables that hold the same -/

/-- Two tables of the same columns that hold the same. The rows of a column
stand in the same order; of its failures the order is never shown. -/
structure SameContents (t t' : Table) : Prop where
  shape : t'.shape = t.shape
  rows : ∀ i : Nat, t'.columns[i]?.map Column.rows = t.columns[i]?.map Column.rows
  failures : ∀ (i : Nat) (row : Int),
    (t'.columns[i]?.bind fun c => c.failures.get? row) =
      t.columns[i]?.bind fun c => c.failures.get? row
  lastRow : t'.lastRow = t.lastRow
  hasSummaries : t'.hasSummaries = t.hasSummaries
  summaries : ∀ [Reductions] (i : Int), t'.summary i = t.summary i

theorem SameContents.symm {t t' : Table} (h : SameContents t t') : SameContents t' t :=
  ⟨h.shape.symm, fun i => (h.rows i).symm, fun i row => (h.failures i row).symm, h.lastRow.symm,
    h.hasSummaries.symm, fun i => (h.summaries i).symm⟩

theorem SameContents.trans {t t' t'' : Table} (h : SameContents t t') (h' : SameContents t' t'') :
    SameContents t t'' :=
  ⟨h'.shape.trans h.shape, fun i => (h'.rows i).trans (h.rows i),
    fun i row => (h'.failures i row).trans (h.failures i row), h'.lastRow.trans h.lastRow,
    h'.hasSummaries.trans h.hasSummaries, fun i => (h'.summaries i).trans (h.summaries i)⟩

theorem summary_congr [Reductions] {t t' : Table} (hlen : t'.columns.length = t.columns.length)
    (h : ∀ k : Nat, t'.columns[k]?.map Column.summary = t.columns[k]?.map Column.summary)
    (i : Int) : t'.summary i = t.summary i := by
  have hplace : t'.place i = t.place i := by
    unfold place
    rw [hlen]
  unfold summary column
  rw [hplace]
  cases t.place i with
  | error f => rfl
  | ok k =>
    dsimp only
    have hk := h k
    cases hc : t.columns[k]? with
    | none =>
      rw [hc, Option.map_none, Option.map_eq_none_iff] at hk
      rw [hk]
    | some c =>
      rw [hc, Option.map_some, Option.map_eq_some_iff] at hk
      obtain ⟨c', hc', hsummary⟩ := hk
      rw [hc']
      simp only [Except.map, hsummary]

/-- Tables hold the same when their cells and the order of their rows are
the same. -/
theorem sameContents_of_stored {t t' : Table} (hshape : t'.shape = t.shape)
    (hlast : t'.lastRow = t.lastRow) (hsummaries : t'.hasSummaries = t.hasSummaries)
    (hheld : ∀ i, t'.heldRows i = t.heldRows i)
    (hstored : ∀ i row, t'.stored i row = t.stored i row) : SameContents t t' := by
  -- position by position, there is no column, or there are two that hold the same
  have hcolumn : ∀ i : Nat, (t.columns[i]? = none ∧ t'.columns[i]? = none) ∨
      ∃ c c', t.columns[i]? = some c ∧ t'.columns[i]? = some c' ∧
        c'.withoutRows = c.withoutRows ∧ c'.rows = c.rows ∧
        ∀ row, c'.stored row = c.stored row := by
    intro i
    cases hc : t.columns[i]? with
    | none =>
      have hi := hheld i
      unfold heldRows at hi
      rw [hc, Option.map_none, Option.map_eq_none_iff] at hi
      exact Or.inl ⟨rfl, hi⟩
    | some c =>
      obtain ⟨c', hc', hsame⟩ := exists_of_shape_eq hshape.symm hc
      have hi := hheld i
      unfold heldRows at hi
      rw [hc, hc', Option.map_some, Option.map_some, Option.some.injEq] at hi
      have hs : ∀ row, c'.stored row = c.stored row := by
        intro row
        have hrow := hstored i row
        unfold stored at hrow
        rwa [hc, hc', Option.map_some, Option.map_some, Option.some.injEq] at hrow
      exact Or.inr ⟨c, c', rfl, hc', hsame, Column.rows_eq_of_stored hi hs, hs⟩
  refine ⟨hshape, fun i => ?_, fun i row => ?_, hlast, hsummaries, summary_congr ?_ fun i => ?_⟩
  · rcases hcolumn i with ⟨hc, hc'⟩ | ⟨c, c', hc, hc', -, hrows, -⟩
    · rw [hc, hc']
    · rw [hc, hc', Option.map_some, Option.map_some, hrows]
  · rcases hcolumn i with ⟨hc, hc'⟩ | ⟨c, c', hc, hc', -, -, hs⟩
    · rw [hc, hc']
    · rw [hc, hc']
      exact (Prod.mk.inj (hs row)).2
  · rw [← length_shape, hshape, length_shape]
  · rcases hcolumn i with ⟨hc, hc'⟩ | ⟨c, c', hc, hc', hsame, hrows, -⟩
    · rw [hc, hc']
    · rw [hc, hc', Option.map_some, Option.map_some, Column.summary_eq hsame hrows]

/-! ## The table as new -/

/-- A new table of the same data and the same columns. -/
def afresh (t : Table) : Table := (ofData t.data t.schedule t.evaluator).append t.columns

theorem getElem?_afresh (t : Table) (i : Nat) :
    t.afresh.columns[i]? = t.columns[i]?.map Column.withoutRows := by
  simp [afresh, append, ofData]

theorem shape_afresh (t : Table) : t.afresh.shape = t.shape := by
  apply List.ext_getElem?
  intro i
  rw [getElem?_shape, getElem?_shape, getElem?_afresh, Option.map_map]
  rfl

/-- A new table of columns is one of their shape. -/
theorem afresh_of_shape_eq {t t' : Table} (hshape : t'.shape = t.shape) (hdata : t'.data = t.data)
    (hschedule : t'.schedule = t.schedule) (hev : t'.evaluator = t.evaluator) :
    t'.afresh = t.afresh := by
  have hcolumns : t'.columns.map Column.withoutRows = t.columns.map Column.withoutRows := hshape
  unfold afresh append
  rw [hdata, hschedule, hev, hcolumns]

theorem lastRow_bindData_afresh (t : Table) : t.afresh.bindData.lastRow = t.bindData.lastRow := by
  have hlen : t.afresh.columns.length = t.columns.length := by
    rw [← length_shape, shape_afresh, length_shape]
  have h : t.afresh.boundLastRow = t.boundLastRow :=
    Nat.le_antisymm (boundLastRow_mono rfl (Nat.le_of_eq hlen))
      (boundLastRow_mono rfl (Nat.le_of_eq hlen.symm))
  exact h

theorem shape_bindData_afresh (t : Table) : t.afresh.bindData.shape = t.bindData.shape := by
  rw [shape_bindData, shape_bindData, shape_afresh]

theorem rowIndices_bindData_afresh (t : Table) :
    t.afresh.bindData.rowIndices = t.bindData.rowIndices :=
  rowIndices_of_lastRow_eq t.lastRow_bindData_afresh

/-- A column of the table and the same column as new, when both have their
raw rows: they are equal, or there are no raw rows. -/
theorem bindRaw_withoutRows_cases (data : RawData) (c : Column) (i : Nat) :
    bindRaw data c.withoutRows i = bindRaw data c i ∨
      data.get? i = none ∧ bindRaw data c.withoutRows i = c.withoutRows ∧
        bindRaw data c i = c := by
  unfold bindRaw
  cases data.get? i with
  | none => exact Or.inr ⟨rfl, rfl, rfl⟩
  | some rows => exact Or.inl rfl

theorem stored_eq_of_keys {c : Column} (row : Int) (hrows : row ∉ c.rows.keys)
    (hfailures : ∀ f, c.failures.get? row = some f → row ∈ c.rows.keys) :
    c.withoutRows.stored row = c.stored row := by
  have hvalue : c.rows.get? row = none := (OrderedMap.get?_eq_none_iff _ _).mpr hrows
  have hfailure : c.failures.get? row = none :=
    Option.eq_none_iff_forall_ne_some.mpr fun f hf => hrows (hfailures f hf)
  unfold Column.stored
  rw [hvalue, hfailure]
  rfl

/-- With the data bound, a table differs from the table as new in the cells
of the calculated columns at most. -/
theorem stored_bindData_afresh {t : Table} (hkept : Kept t) (horder : RowsInOrder t) {i : Nat}
    {row : Int} (h : ¬ (i ∈ t.bindData.calculatedPositions ∧ row ∈ t.bindData.rowIndices)) :
    t.afresh.bindData.stored i row = t.bindData.stored i row := by
  unfold stored
  rw [getElem?_bindData, getElem?_bindData, getElem?_afresh]
  cases hc : t.columns[i]? with
  | none => rfl
  | some c =>
    simp only [Option.map_some, Option.some.injEq]
    have hdata : t.afresh.data = t.data := rfl
    rw [hdata]
    rcases bindRaw_withoutRows_cases t.data c i with he | ⟨hraw, he, he'⟩
    · rw [he]
    · rw [he, he']
      have hmem : ∀ v, c.rows.get? row = some v → row ∈ c.rows.keys := by
        intro v hv
        by_contra hno
        rw [(OrderedMap.get?_eq_none_iff _ _).mpr hno] at hv
        cases hv
      apply stored_eq_of_keys
      · intro hheld
        obtain ⟨n, hn, hkeys, hplain⟩ := horder i c hc hraw
        rw [hkeys, mem_firstRows] at hheld
        have hlast : t.lastRow ≤ t.bindData.lastRow := hkept.lastRow_le
        refine h ⟨?_, (mem_rowIndices _ row).mpr ⟨hheld.1, by omega⟩⟩
        have hcalc : c.isCalculated = true := by
          cases hc' : c.isCalculated with
          | true => rfl
          | false =>
            rw [hplain hc'] at hheld
            omega
        have hpos := (mem_calculatedPositions t i).mpr ⟨c, hc, hcalc⟩
        rwa [calculatedPositions_eq, shape_bindData, ← calculatedPositions_eq]
      · intro f hf
        exact hmem _ ((hkept.rows i c hc row).failed f hf).2

/-! ## The two passes -/

/-- The cells of columns that fail for a cycle are a matter of the shape. -/
theorem stored_blockedFailed_congr {t t' : Table} (hshape : t'.shape = t.shape)
    (hschedule : t'.schedule = t.schedule) (hlast : t'.lastRow = t.lastRow) {i : Nat} {row : Int}
    (h : i ∈ t.plan.blocked ∧ row ∈ t.rowIndices ∨ t'.stored i row = t.stored i row) :
    t'.blockedFailed.stored i row = t.blockedFailed.stored i row := by
  obtain ⟨-, hfailed, hkept⟩ := t.blockedFailed_spec
  obtain ⟨-, hfailed', hkept'⟩ := t'.blockedFailed_spec
  rw [plan_of_shape_eq hshape hschedule, rowIndices_of_lastRow_eq hlast] at hfailed' hkept'
  by_cases hb : i ∈ t.plan.blocked ∧ row ∈ t.rowIndices
  · obtain ⟨hi, hrow⟩ := hb
    obtain ⟨c, hc, -⟩ := (mem_calculatedPositions t i).mp (t.blocked_subset hi)
    obtain ⟨c', hc', hsame⟩ := exists_of_shape_eq hshape.symm hc
    have hholds' := hfailed' i hi c' hc' row hrow
    rw [cycleFailure_of_withoutRows hsame] at hholds'
    exact (hfailed i hi c hc row hrow).stored_eq hholds'
  · rw [hkept' i row hb, hkept i row hb]
    exact h.resolve_left hb

/-- A cell that names a calculated column comes after the cell of this
column. -/
theorem mem_before_of_namesColumn {t : Table} (hs : t.schedule = .dependency)
    {before after : List (Nat × Int)} {cell : Nat × Int}
    (he : t.cellsToDo = before ++ cell :: after) {j : Nat}
    (hn : NamesColumn t.columns cell.1 j) (hj : j ∈ t.calculatedPositions) :
    (j, cell.2) ∈ before := by
  have hcell : (cell.1, cell.2) ∈ t.cellsOf t.plan.order := by
    unfold cellsToDo at he
    rw [he]
    simp
  obtain ⟨hi, hrow⟩ := (mem_cellsOf t _ _ _).mp hcell
  have hrefers := refersTo_of_namesColumn (t.order_subset hi) hj hn
  have hjorder := (idxOf_order_lt hs hi hrefers).1
  have hmem : (j, cell.2) ∈ before ++ cell :: after := by
    rw [← he]
    exact (mem_cellsOf t _ _ _).mpr ⟨hjorder, hrow⟩
  have hpairs := t.cellsOf_pairwise (order_pairwise hs) fun i hi => not_namesColumn_self hs hi
  unfold cellsToDo at he
  rw [he, List.pairwise_append, List.pairwise_cons] at hpairs
  rw [List.mem_append, List.mem_cons] at hmem
  rcases hmem with hmem | hself | hafter
  · exact hmem
  · rw [← hself] at hn hi
    exact absurd hn (not_namesColumn_self hs hi)
  · exact absurd hn (hpairs.2.1.1 _ hafter)

/-- The passes over a table and over the table as new go side by side. -/
theorem alongside_pass_afresh {t : Table} (hs : t.schedule = .dependency) (hkept : Kept t)
    (horder : RowsInOrder t) :
    Alongside t.bindData.blockedFailed t.afresh.bindData.blockedFailed t.bindData.cellsToDo
      t.bindData.pass t.afresh.bindData.pass := by
  have hplan : t.afresh.bindData.plan = t.bindData.plan :=
    plan_of_shape_eq t.shape_bindData_afresh rfl
  have hcells : t.afresh.bindData.cellsToDo = t.bindData.cellsToDo := by
    unfold cellsToDo cellsOf
    rw [hplan, t.rowIndices_bindData_afresh]
  have hframe := t.bindData.blockedFailed_spec.1
  have hframe' := t.afresh.bindData.blockedFailed_spec.1
  unfold pass
  rw [hcells, hplan, t.lastRow_bindData_afresh]
  apply alongside_foldl_step
  · rw [hframe'.shape, hframe.shape, t.shape_bindData_afresh]
  · rw [hframe'.evaluator, hframe.evaluator]
    rfl
  · intro before cell after he j hn
    have hn' := namesColumn_of_shape_eq hframe.shape hn
    by_cases hj : j ∈ t.bindData.calculatedPositions
    · exact Or.inl (mem_before_of_namesColumn (t := t.bindData) hs he hn' hj)
    · refine Or.inr (stored_blockedFailed_congr t.shape_bindData_afresh rfl
        t.lastRow_bindData_afresh (Or.inr ?_))
      exact stored_bindData_afresh hkept horder fun h => hj h.1

/-- The columns of a table and of the table as new hold the same rows after
the pass, in the same order. -/
theorem heldRows_pass_afresh {t : Table} (hkept : Kept t) (horder : RowsInOrder t)
    (hdone : t.bindData.pass.fault? = none) (hdone' : t.afresh.bindData.pass.fault? = none)
    (i : Nat) : t.afresh.bindData.pass.table.heldRows i = t.bindData.pass.table.heldRows i := by
  have hpositions : t.afresh.bindData.calculatedPositions = t.bindData.calculatedPositions := by
    rw [calculatedPositions_eq, calculatedPositions_eq, t.shape_bindData_afresh]
  rw [heldRows_pass hdone, heldRows_pass hdone', hpositions, t.rowIndices_bindData_afresh]
  unfold heldRows
  rw [getElem?_bindData, getElem?_bindData, getElem?_afresh]
  cases hc : t.columns[i]? with
  | none => rfl
  | some c =>
    have hdata : t.afresh.data = t.data := rfl
    simp only [Option.map_some, Option.some.injEq, hdata]
    rcases bindRaw_withoutRows_cases t.data c i with he | ⟨hraw, he, he'⟩
    · rw [he]
    · obtain ⟨n, hn, hkeys, hplain⟩ := horder i c hc hraw
      have hnew : c.withoutRows.rows.keys = firstRows 0 := rfl
      have hrows : t.bindData.rowIndices = firstRows (t.bindData.lastRow + 1) := rfl
      have hlast : t.lastRow ≤ t.bindData.lastRow := hkept.lastRow_le
      rw [he, he', hkeys, hnew, hrows, writtenRows_firstRows, writtenRows_firstRows]
      split
      · congr 1
        omega
      · rename_i hno
        have hcalc : c.isCalculated = false := by
          rw [calculatedPositions_eq, shape_bindData, ← calculatedPositions_eq,
            mem_calculatedPositions] at hno
          simpa using fun h => hno ⟨c, hc, h⟩
        rw [hplain hcalc]

/-- A pass to its end leaves in the table what it leaves in the table as
new. -/
theorem sameContents_pass_afresh {t : Table} (hs : t.schedule = .dependency) (hkept : Kept t)
    (horder : RowsInOrder t) (hdone : t.bindData.pass.fault? = none) :
    SameContents t.bindData.pass.table t.afresh.bindData.pass.table := by
  have hrun := alongside_pass_afresh hs hkept horder
  have hdone' := hrun.fault.trans hdone
  have hframe := t.bindData.blockedFailed_spec.1.trans hrun.frame
  have hframe' := t.afresh.bindData.blockedFailed_spec.1.trans hrun.frame'
  refine sameContents_of_stored ?_ ?_ ?_ (heldRows_pass_afresh hkept horder hdone hdone')
    fun i row => hrun.agree hdone i row ?_
  · rw [hframe.shape, hframe'.shape, t.shape_bindData_afresh]
  · rw [hframe.lastRow, hframe'.lastRow, t.lastRow_bindData_afresh]
  · rw [hframe.hasSummaries, hframe'.hasSummaries, hasSummaries_bindData, hasSummaries_bindData,
      shape_afresh]
  · by_cases hcell : i ∈ t.bindData.calculatedPositions ∧ row ∈ t.bindData.rowIndices
    · obtain ⟨hi, hrow⟩ := hcell
      rw [← t.bindData.plan_perm.mem_iff, List.mem_append] at hi
      rcases hi with hi | hi
      · exact Or.inr (stored_blockedFailed_congr t.shape_bindData_afresh rfl
          t.lastRow_bindData_afresh (Or.inl ⟨hi, hrow⟩))
      · exact Or.inl ((mem_cellsOf _ _ _ _).mpr ⟨hi, hrow⟩)
    · exact Or.inr (stored_blockedFailed_congr t.shape_bindData_afresh rfl
        t.lastRow_bindData_afresh (Or.inr (stored_bindData_afresh hkept horder hcell)))

/-- The reports of the two passes are one. -/
theorem passReport_afresh {t : Table} (hs : t.schedule = .dependency) (hkept : Kept t)
    (horder : RowsInOrder t) : t.afresh.bindData.passReport = t.bindData.passReport := by
  have hrun := alongside_pass_afresh hs hkept horder
  unfold passReport
  rw [hrun.failed, plan_of_shape_eq t.shape_bindData_afresh rfl, t.lastRow_bindData_afresh,
    namesAt_of_shape_eq t.shape_bindData_afresh]
  rfl

/-! ## The laws -/

theorem SameContents.of_pass {t t' u u' : Table} (h : SameContents t t') {r r' : Option Report}
    (hu : u = { t with report? := r }) (hu' : u' = { t' with report? := r' }) :
    SameContents u u' := by
  subst hu
  subst hu'
  exact ⟨h.shape, h.rows, h.failures, h.lastRow, h.hasSummaries, h.summaries⟩

/-- A recalculation ends as that of the table as new ends. -/
theorem recalculate_afresh {t : Table} (hs : t.schedule = .dependency) (hkept : Kept t)
    (horder : RowsInOrder t) :
    t.recalculate.report = t.afresh.recalculate.report ∧
      ∀ report, t.recalculate.report = .ok report →
        SameContents t.recalculate.table t.afresh.recalculate.table ∧
        t.recalculate.table.report? = some report ∧
        t.afresh.recalculate.table.report? = some report := by
  have hrun := alongside_pass_afresh hs hkept horder
  rcases t.recalculate_cases with ⟨f, hfault, hreport, -⟩ | ⟨hdone, hreport, htable⟩
  · rcases t.afresh.recalculate_cases with ⟨f', hfault', hreport', -⟩ | ⟨hdone', -, -⟩
    · rw [hrun.fault, hfault, Option.some.injEq] at hfault'
      rw [hreport, hreport', hfault']
      exact ⟨rfl, fun report h => by cases h⟩
    · rw [hrun.fault, hfault] at hdone'
      cases hdone'
  · rcases t.afresh.recalculate_cases with ⟨f', hfault', -, -⟩ | ⟨-, hreport', htable'⟩
    · rw [hrun.fault, hdone] at hfault'
      cases hfault'
    · rw [passReport_afresh hs hkept horder] at hreport' htable'
      rw [hreport, hreport']
      refine ⟨rfl, fun report h => ?_⟩
      cases h
      refine ⟨(sameContents_pass_afresh hs hkept horder hdone).of_pass htable htable', ?_, ?_⟩
      · rw [htable]
      · rw [htable']

theorem shape_recalculate (t : Table) : t.recalculate.table.shape = t.shape :=
  t.frame_recalculate.shape.trans t.shape_bindData

theorem afresh_recalculate (t : Table) : t.recalculate.table.afresh = t.afresh := by
  obtain ⟨hdata, hschedule, hev⟩ := change_fixed t .recalculate
  exact afresh_of_shape_eq t.shape_recalculate hdata hschedule hev

/-- A second recalculation changes nothing. -/
theorem recalculate_again {t : Table} (hs : t.schedule = .dependency) (hkept : Kept t)
    (horder : RowsInOrder t) {report : Report} (h : t.recalculate.report = .ok report) :
    t.recalculate.table.recalculate.report = .ok report ∧
      SameContents t.recalculate.table t.recalculate.table.recalculate.table := by
  obtain ⟨hreport, hsame⟩ := recalculate_afresh hs hkept horder
  obtain ⟨hcontents, -⟩ := hsame report h
  have hs' : t.recalculate.table.schedule = .dependency :=
    ((change_fixed t .recalculate).2.1).trans hs
  obtain ⟨hreport', hsame'⟩ := recalculate_afresh hs' hkept.recalculate (horder.recalculate hkept)
  -- both tables are the same as new
  rw [afresh_recalculate, ← hreport, h] at hreport'
  obtain ⟨hcontents', -⟩ := hsame' report hreport'
  rw [afresh_recalculate] at hcontents'
  exact ⟨hreport', hcontents.trans hcontents'.symm⟩

/-- Whatever columns were added or replaced before, and however often the
table was recalculated: a recalculation by dependency ends as that of a new
table of the same columns ends, and leaves the same in the table. It can only
stop at a value of the data or of the engine that has no text. Once more
recalculated, the table stays as it is. -/
theorem recalculation_forgets_history (data : RawData) (ev : Evaluator) (changes : List Change) :
    let t := (ofData data .dependency ev).after changes
    let fresh := (ofData data .dependency ev).append t.columns
    t.recalculate.report = fresh.recalculate.report ∧
      match t.recalculate.report with
      | .error f =>
        ∃ v, v.display = .error f ∧ (RawValue data v ∨ ∃ text, ev.engine text = .ok v)
      | .ok report =>
        SameContents t.recalculate.table fresh.recalculate.table ∧
          t.recalculate.table.report? = some report ∧
          fresh.recalculate.table.report? = some report ∧
          t.recalculate.table.recalculate.report = .ok report ∧
          SameContents t.recalculate.table t.recalculate.table.recalculate.table := by
  obtain ⟨hkept, hdata, hschedule, hev⟩ := after_spec data .dependency ev changes
  have horder := rowsInOrder_after data .dependency ev changes
  generalize (ofData data .dependency ev).after changes = t at *
  subst hdata
  subst hev
  have hfresh : (ofData t.data .dependency t.evaluator).append t.columns = t.afresh := by
    unfold afresh
    rw [hschedule]
  dsimp only
  rw [hfresh]
  obtain ⟨hreport, hsame⟩ := recalculate_afresh hschedule hkept horder
  refine ⟨hreport, ?_⟩
  cases hr : t.recalculate.report with
  | error f => exact origin_of_recalculate_error hkept hr
  | ok report =>
    obtain ⟨hcontents, htable, hnew⟩ := hsame report hr
    exact ⟨hcontents, htable, hnew, recalculate_again hschedule hkept horder hr⟩

end Table

end Worksheet
