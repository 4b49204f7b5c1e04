-- Two tables that have the same columns by name, in other places. The plans
-- have other positions and take the cells in another order, but a cell still
-- reads what it read, by name, and whatever it reads has had its turn. So each
-- cell comes to the same outcome.
import Worksheet.Proofs.Table.NamedColumns
import Worksheet.Proofs.Table.Afresh
import Mathlib.Algebra.BigOperators.Group.List.Basic

open Relation

namespace Worksheet

/-! ## The same columns -/

/-- Two columns that hold and show the same. -/
structure Column.Same (c c' : Column) : Prop where
  shape : c'.withoutRows = c.withoutRows
  rows : c'.rows = c.rows
  failures : ∀ row, c'.failures.get? row = c.failures.get? row
  texts : ∀ row, c'.textAt row = c.textAt row
  outcomes : ∀ row, c'.outcomeAt row = c.outcomeAt row
  summary : ∀ [Reductions], c'.summary = c.summary

namespace Column.Same

theorem of_stored {c c' : Column} (hshape : c'.withoutRows = c.withoutRows)
    (hkeys : c'.rows.keys = c.rows.keys) (h : ∀ row, c'.stored row = c.stored row) :
    Same c c' := by
  have hrows := rows_eq_of_stored hkeys h
  exact ⟨hshape, hrows, fun row => (Prod.mk.inj (h row)).2, fun row => textAt_of_stored (h row),
    fun row => outcomeAt_of_stored (h row), summary_eq hshape hrows⟩

theorem symm {c c' : Column} (h : Same c c') : Same c' c :=
  ⟨h.shape.symm, h.rows.symm, fun row => (h.failures row).symm, fun row => (h.texts row).symm,
    fun row => (h.outcomes row).symm, h.summary.symm⟩

theorem trans {c c' c'' : Column} (h : Same c c') (h' : Same c' c'') : Same c c'' :=
  ⟨h'.shape.trans h.shape, h'.rows.trans h.rows,
    fun row => (h'.failures row).trans (h.failures row),
    fun row => (h'.texts row).trans (h.texts row),
    fun row => (h'.outcomes row).trans (h.outcomes row), h'.summary.trans h.summary⟩

theorem stored {c c' : Column} (h : Same c c') (row : Int) : c'.stored row = c.stored row := by
  unfold Column.stored
  rw [h.rows, h.failures row]

end Column.Same

namespace Table

/-- By their names, the columns of the tables are the same. -/
def SameByName (t t' : Table) : Prop :=
  ∀ name, Option.Rel Column.Same (t.named name) (t'.named name)

theorem SameByName.symm {t t' : Table} (h : SameByName t t') : SameByName t' t := by
  intro name
  have hname := h name
  revert hname
  generalize t.named name = x
  generalize t'.named name = y
  rintro (hsame | _)
  · exact .some hsame.symm
  · exact .none

theorem SameByName.trans {t t' t'' : Table} (h : SameByName t t') (h' : SameByName t' t'') :
    SameByName t t'' := by
  intro name
  have hname := h name
  have hname' := h' name
  revert hname hname'
  generalize t.named name = x
  generalize t'.named name = y
  generalize t''.named name = z
  rintro (hsame | _) (hsame' | _)
  · exact .some (hsame.trans hsame')
  · exact .none

theorem SameByName.storedAs {t t' : Table} (h : SameByName t t') (name : String) (row : Int) :
    t'.storedAs name row = t.storedAs name row := by
  have hname := h name
  unfold Table.storedAs
  revert hname
  generalize t.named name = x
  generalize t'.named name = y
  rintro (hsame | _)
  · exact congrArg some (hsame.stored row)
  · rfl

/-- Tables that hold the same at their positions do so by name. -/
theorem SameContents.sameByName {t t' : Table} (h : SameContents t t') : SameByName t t' := by
  intro name
  have hpos := position?_of_shape_eq h.shape name
  unfold named
  rw [hpos]
  cases t.position? name with
  | none => exact .none
  | some i =>
    rw [Option.bind_some, Option.bind_some]
    have hrows := h.rows i
    have hfailures := h.failures i
    cases hc : t.columns[i]? with
    | none =>
      rw [hc, Option.map_none, Option.map_eq_none_iff] at hrows
      rw [hrows]
      exact .none
    | some c =>
      obtain ⟨c', hc', hsame⟩ := exists_of_shape_eq h.shape.symm hc
      rw [hc, hc', Option.map_some, Option.map_some, Option.some.injEq] at hrows
      simp only [hc, hc', Option.bind_some] at hfailures
      rw [hc']
      refine .some (.of_stored hsame (by rw [hrows]) fun row => ?_)
      unfold Column.stored
      rw [hrows, hfailures row]

/-! ## Two tables with the same named columns -/

/-- Two tables that are evaluated by dependency, with one evaluator, and that
have the same columns by name. -/
structure Reordered (t t' : Table) : Prop where
  schedule : t.schedule = .dependency
  schedule' : t'.schedule = .dependency
  evaluator : t'.evaluator = t.evaluator
  lastRow : t'.lastRow = t.lastRow
  distinct : t.Distinct
  distinct' : t'.Distinct
  named : ∀ name, t'.named name = t.named name

/-- One name stands for the column at `i` in the one table and for that at
`i'` in the other. -/
def Moves (t t' : Table) (i i' : Nat) : Prop :=
  ∃ name, t.position? name = some i ∧ t'.position? name = some i'

theorem Moves.unique {t t' : Table} {i i' k' : Nat} (hm : Moves t t' i i')
    (hk : Moves t t' i k') : k' = i' := by
  obtain ⟨name, hi, hi'⟩ := hm
  obtain ⟨other, ho, hk'⟩ := hk
  obtain ⟨c, hc, hname, -⟩ := (position?_eq_some_iff t name i).mp hi
  obtain ⟨d, hd, hother, -⟩ := (position?_eq_some_iff t other i).mp ho
  rw [hc, Option.some.injEq] at hd
  rw [← hother, ← hd, hname, hi', Option.some.injEq] at hk'
  exact hk'.symm

namespace Reordered

variable {t t' : Table}

theorem symm (h : Reordered t t') : Reordered t' t :=
  ⟨h.schedule', h.schedule, h.evaluator.symm, h.lastRow.symm, h.distinct', h.distinct,
    fun name => (h.named name).symm⟩

theorem rowIndices (h : Reordered t t') : t'.rowIndices = t.rowIndices :=
  rowIndices_of_lastRow_eq h.lastRow

theorem refersAs (h : Reordered t t') : t'.RefersAs = t.RefersAs := by
  funext a b
  unfold RefersAs
  rw [h.named, h.named]

/-- A name that stands for a column stands for it in the other table. -/
theorem exists_moves (h : Reordered t t') {i : Nat} {c : Column} (hc : t.columns[i]? = some c) :
    ∃ i', Moves t t' i i' ∧ t'.columns[i']? = some c := by
  have hi := h.distinct.position? hc
  have hnamed : t'.named c.name = some c := by rw [h.named, named_of_position hi, hc]
  obtain ⟨i', hi', hc', -⟩ := named_eq_some hnamed
  exact ⟨i', ⟨c.name, hi, hi'⟩, hc'⟩

section

variable {i i' : Nat}

theorem column_eq (h : Reordered t t') (hm : Moves t t' i i') :
    t'.columns[i']? = t.columns[i]? := by
  obtain ⟨name, hi, hi'⟩ := hm
  rw [← named_of_position hi, ← named_of_position hi', h.named]

theorem mem_calculatedPositions (h : Reordered t t') (hm : Moves t t' i i') :
    i' ∈ t'.calculatedPositions ↔ i ∈ t.calculatedPositions := by
  rw [Table.mem_calculatedPositions, Table.mem_calculatedPositions, h.column_eq hm]

theorem reachesCycle_iff (h : Reordered t t') (hm : Moves t t' i i') :
    ReachesCycle (RefersTo t'.columns) i' ↔ ReachesCycle (RefersTo t.columns) i := by
  obtain ⟨name, hi, hi'⟩ := hm
  rw [reachesCycle_iff_named h.distinct hi, reachesCycle_iff_named h.distinct' hi', h.refersAs]

theorem mem_order (h : Reordered t t') (hm : Moves t t' i i') :
    i' ∈ t'.plan.order ↔ i ∈ t.plan.order := by
  rw [mem_order_iff_not_reachesCycle h.schedule, mem_order_iff_not_reachesCycle h.schedule',
    h.mem_calculatedPositions hm, h.reachesCycle_iff hm]

theorem mem_blocked (h : Reordered t t') (hm : Moves t t' i i') :
    i' ∈ t'.plan.blocked ↔ i ∈ t.plan.blocked := by
  rw [mem_blocked_iff_reachesCycle h.schedule, mem_blocked_iff_reachesCycle h.schedule',
    h.reachesCycle_iff hm]

end

/-! ## One run beside a whole pass -/

/-- Cells that are not evaluated keep what they have, or fail for a cycle, in
both tables. -/
theorem stored_blockedFailed (h : Reordered t t') (hdone' : t'.pass.fault? = none) {i i' : Nat}
    (hm : Moves t t' i i') {row : Int} (hout : (i, row) ∉ t.cellsToDo) :
    t'.pass.table.stored i' row = t.blockedFailed.stored i row := by
  obtain ⟨-, hblocked, hrest⟩ := t.blockedFailed_spec
  obtain ⟨-, -, hblocked', hrest'⟩ := pass_spec h.schedule' hdone'
  have hrows := h.rowIndices
  by_cases hb : i ∈ t.plan.blocked ∧ row ∈ t.rowIndices
  · obtain ⟨hi, hrow⟩ := hb
    obtain ⟨c, hc, -⟩ := (Table.mem_calculatedPositions t i).mp (t.blocked_subset hi)
    have hc' := (h.column_eq hm).trans hc
    exact (hblocked i hi c hc row hrow).stored_eq
      (hblocked' i' ((h.mem_blocked hm).mpr hi) c hc' row (hrows ▸ hrow))
  · rw [hrest i row hb, hrest' i' row]
    · unfold stored
      rw [h.column_eq hm]
    · rintro ⟨hi', hrow⟩
      rw [hrows] at hrow
      rw [h.mem_calculatedPositions hm, ← t.plan_perm.mem_iff, List.mem_append] at hi'
      rcases hi' with hi | hi
      · exact hb ⟨hi, hrow⟩
      · exact hout ((mem_cellsOf t _ _ _).mpr ⟨hi, hrow⟩)

/-- Columns that read by the same names have the same variables, where these
names show the same. -/
theorem variablesAt_eq (h : Reordered t t') {u u' : Table} (hu : u.shape = t.shape)
    (hu' : u'.shape = t'.shape) {c d d' : Column} (hd : d.withoutRows = c.withoutRows)
    (hd' : d'.withoutRows = c.withoutRows) {row : Int}
    (hreads : ∀ name ∈ c.reads, ∀ j j', t.position? name = some j → t'.position? name = some j' →
      u'.stored j' row = u.stored j row) :
    u'.variablesAt row d' = u.variablesAt row d := by
  unfold variablesAt
  rw [Column.reads_eq_of_withoutRows hd, Column.reads_eq_of_withoutRows hd']
  refine congrArg _ (readNames_of_storedAs row _ fun name hname => ?_)
  cases hn : t.named name with
  | none =>
    unfold storedAs
    rw [named_eq_none_of_shape_eq hu hn,
      named_eq_none_of_shape_eq hu' ((h.named name).trans hn)]
  | some e =>
    obtain ⟨j, hj, -⟩ := named_eq_some hn
    obtain ⟨j', hj', -⟩ := named_eq_some ((h.named name).trans hn)
    rw [storedAs_of_position ((position?_of_shape_eq hu name).trans hj),
      storedAs_of_position ((position?_of_shape_eq hu' name).trans hj')]
    exact hreads name hname j j' hj hj'

/-- The next cell of a run reads what the cell of the same name reads at the
end of the other pass. So it comes to the outcome that is held there. -/
theorem exists_turn (h : Reordered t t') (hdone' : t'.pass.fault? = none)
    {before after : List (Nat × Int)} {i : Nat} {row : Int}
    (hcells : t.cellsToDo = before ++ (i, row) :: after) {u : Table} (hframe : SameFrame t u)
    (hagree : ∀ j j', Moves t t' j j' → (j, row) ∈ before ∨ (j, row) ∉ t.cellsToDo →
      t'.pass.table.stored j' row = u.stored j row) :
    ∃ i' result u', Moves t t' i i' ∧ t'.pass.table.Holds i' row result ∧
      u.evaluateCell i row = .ok (u', !result.isOk) ∧ Writes u i row result u' := by
  obtain ⟨hframe', hrefs', -⟩ := pass_spec h.schedule' hdone'
  have hmem : (i, row) ∈ t.cellsOf t.plan.order := by
    have : (i, row) ∈ t.cellsToDo := by simp [hcells]
    exact this
  obtain ⟨hi, hrow⟩ := (mem_cellsOf t _ _ _).mp hmem
  obtain ⟨c, hc, -⟩ := (Table.mem_calculatedPositions t i).mp (t.order_subset hi)
  obtain ⟨i', hm, hc'⟩ := h.exists_moves hc
  obtain ⟨d', vars, result, hd', hvars, heval, hholds⟩ :=
    hrefs' i' ((h.mem_order hm).mpr hi) row (h.rowIndices ▸ hrow)
  obtain ⟨d, hd, hsame⟩ := exists_of_shape_eq hframe.shape.symm hc
  obtain ⟨_, he', hsame'⟩ := exists_of_shape_eq hframe'.shape.symm hc'
  rw [hd', Option.some.injEq] at he'
  subst he'
  have hreads : t'.pass.table.variablesAt row d' = u.variablesAt row d := by
    refine h.variablesAt_eq hframe.shape hframe'.shape hsame hsame' fun name hname j j' hj hj' => ?_
    have hnames : NamesColumn t.columns i j :=
      ⟨c, name, hc, hname, (position?_eq_some_iff t name j).mp hj⟩
    refine hagree j j' ⟨name, hj, hj'⟩ ?_
    -- what is calculated had its turn, and the rest has none
    by_cases hcalc : j ∈ t.calculatedPositions
    · exact Or.inl (mem_before_of_namesColumn h.schedule hcells hnames hcalc)
    · exact Or.inr fun hmem => hcalc (t.order_subset ((mem_cellsOf t _ _ _).mp hmem).1)
  rw [hreads] at hvars
  rw [hframe'.evaluator, h.evaluator, ← hframe.evaluator,
    Column.expression_eq_of_withoutRows hsame',
    ← Column.expression_eq_of_withoutRows hsame] at heval
  obtain ⟨_, -, hshown⟩ := id hholds
  obtain ⟨text, htext, -⟩ := hshown.shown
  obtain ⟨u', hcell, hw⟩ := evaluateCell_of_outcome hd hvars heval htext
  exact ⟨i', result, u', hm, hholds, hcell, hw⟩

/-- Where the other pass comes to its end, a run of the one has no fault, and
its cells and those that have no turn are as at that end. -/
theorem turns_agree (h : Reordered t t') (hdone' : t'.pass.fault? = none)
    {before after : List (Nat × Int)} (hcells : t.cellsToDo = before ++ after) :
    (t.turns before).fault? = none ∧ SameFrame t (t.turns before).table ∧
      ∀ i i' row, Moves t t' i i' → (i, row) ∈ before ∨ (i, row) ∉ t.cellsToDo →
        t'.pass.table.stored i' row = (t.turns before).table.stored i row := by
  induction before using List.reverseRecOn generalizing after with
  | nil =>
    refine ⟨rfl, t.blockedFailed_spec.1, fun i i' row hm hor => ?_⟩
    exact h.stored_blockedFailed hdone' hm (hor.resolve_left List.not_mem_nil)
  | append_singleton before cell ih =>
    obtain ⟨i, row⟩ := cell
    rw [List.append_assoc, List.singleton_append] at hcells
    obtain ⟨hfault, hframe, hagree⟩ := ih hcells
    obtain ⟨i', result, u, hm, hholds, hcell, hw⟩ := h.exists_turn hdone' hcells hframe
      fun j j' hj hor => hagree j j' row hj hor
    rw [turns_snoc, step_of_evaluateCell hfault hcell]
    refine ⟨rfl, hframe.trans hw.frame, fun k k' r hk hor => ?_⟩
    by_cases hkr : (k, r) = (i, row)
    · obtain ⟨rfl, rfl⟩ := Prod.mk.inj hkr
      rw [hm.unique hk]
      exact hw.holds.stored_eq hholds
    · rw [hw.kept k r hkr]
      refine hagree k k' r hk (hor.imp_left fun hmem => ?_)
      simpa [hkr] using hmem

/-- If the one pass comes to its end, so does the other. -/
theorem fault?_eq_none (h : Reordered t t') (hdone' : t'.pass.fault? = none) :
    t.pass.fault? = none := (h.turns_agree hdone' (List.append_nil _).symm).1

theorem stored_pass (h : Reordered t t') (hdone' : t'.pass.fault? = none) {i i' : Nat}
    (hm : Moves t t' i i') (row : Int) :
    t'.pass.table.stored i' row = t.pass.table.stored i row :=
  (h.turns_agree hdone' (List.append_nil _).symm).2.2 i i' row hm (Decidable.em _)

/-! ## Two passes -/

theorem heldRows_pass (h : Reordered t t') (hdone : t.pass.fault? = none)
    (hdone' : t'.pass.fault? = none) {i i' : Nat} (hm : Moves t t' i i') :
    t'.pass.table.heldRows i' = t.pass.table.heldRows i := by
  rw [Table.heldRows_pass hdone, Table.heldRows_pass hdone', h.rowIndices]
  simp only [h.mem_calculatedPositions hm]
  unfold heldRows
  rw [h.column_eq hm]

/-- After the passes the columns are the same by name. -/
theorem sameByName_pass (h : Reordered t t') (hdone : t.pass.fault? = none)
    (hdone' : t'.pass.fault? = none) : SameByName t.pass.table t'.pass.table := by
  intro name
  have hshape := (t.pass_cells).1.shape
  have hshape' := (t'.pass_cells).1.shape
  cases hn : t.named name with
  | none =>
    rw [named_eq_none_of_shape_eq hshape hn,
      named_eq_none_of_shape_eq hshape' ((h.named name).trans hn)]
    exact .none
  | some c =>
    obtain ⟨i, hi, hc, -⟩ := named_eq_some hn
    obtain ⟨i', hi', hc', -⟩ := named_eq_some ((h.named name).trans hn)
    have hm : Moves t t' i i' := ⟨name, hi, hi'⟩
    obtain ⟨d, hd, hsame⟩ := exists_of_shape_eq hshape.symm hc
    obtain ⟨d', hd', hsame'⟩ := exists_of_shape_eq hshape'.symm hc'
    rw [named_of_position ((position?_of_shape_eq hshape name).trans hi),
      named_of_position ((position?_of_shape_eq hshape' name).trans hi'), hd, hd']
    have hkeys := h.heldRows_pass hdone hdone' hm
    have hstored := h.stored_pass hdone' hm
    unfold heldRows at hkeys
    unfold stored at hstored
    simp only [hd, hd', Option.map_some, Option.some.injEq] at hkeys hstored
    exact .some (.of_stored (hsame'.trans hsame.symm) hkeys hstored)

/-! ## Two reports -/

/-- Positions of the same columns have the same names, in another order. -/
theorem namesAt_perm (h : Reordered t t') {positions positions' : List Nat}
    (hnodup : positions.Nodup) (hnodup' : positions'.Nodup)
    (hmem : ∀ i i', Moves t t' i i' → (i' ∈ positions' ↔ i ∈ positions)) :
    (t'.namesAt positions').Perm (t.namesAt positions) := by
  rw [List.perm_ext_iff_of_nodup (nodup_namesAt h.distinct' hnodup')
    (nodup_namesAt h.distinct hnodup)]
  intro name
  rw [mem_namesAt h.distinct, mem_namesAt h.distinct']
  constructor
  · rintro ⟨i', hi', hpos'⟩
    obtain ⟨c, hc, -⟩ := exists_named hpos'
    obtain ⟨i, hpos, -⟩ := named_eq_some ((h.named name).symm.trans hc)
    exact ⟨i, (hmem i i' ⟨name, hpos, hpos'⟩).mp hi', hpos⟩
  · rintro ⟨i, hi, hpos⟩
    obtain ⟨c, hc, -⟩ := exists_named hpos
    obtain ⟨i', hpos', -⟩ := named_eq_some ((h.named name).trans hc)
    exact ⟨i', (hmem i i' ⟨name, hpos, hpos'⟩).mpr hi, hpos'⟩

theorem calculated_perm (h : Reordered t t') :
    (t'.namesAt t'.calculatedPositions).Perm (t.namesAt t.calculatedPositions) :=
  h.namesAt_perm t.calculatedPositions_nodup t'.calculatedPositions_nodup
    fun _ _ hm => h.mem_calculatedPositions hm

theorem blocked_perm (h : Reordered t t') :
    (t'.namesAt t'.plan.blocked).Perm (t.namesAt t.plan.blocked) :=
  h.namesAt_perm (List.nodup_append.mp t.plan_nodup).1 (List.nodup_append.mp t'.plan_nodup).1
    fun _ _ hm => h.mem_blocked hm

theorem length_calculatedPositions (h : Reordered t t') :
    t'.calculatedPositions.length = t.calculatedPositions.length := by
  rw [← length_namesAt t.exists_calculated, ← length_namesAt t'.exists_calculated,
    h.calculated_perm.length_eq]

theorem failed_pass (h : Reordered t t') (hdone : t.pass.fault? = none)
    (hdone' : t'.pass.fault? = none) : t'.pass.failed = t.pass.failed := by
  have hsame := (h.sameByName_pass hdone hdone').storedAs
  rw [Table.failed_pass hdone, Table.failed_pass hdone',
    countP_failedAt h.distinct (t.pass_cells).1.shape t.exists_calculated,
    countP_failedAt h.distinct' (t'.pass_cells).1.shape t'.exists_calculated,
    h.rowIndices]
  simp only [hsame]
  exact (h.calculated_perm.map _).sum_eq

end Reordered

/-- Reports of the same columns: the same counts, and the same columns that
fail for a cycle. -/
structure SameCounts (report report' : Report) : Prop where
  lastRow : report'.lastRow = report.lastRow
  cells : report'.cells = report.cells
  failedCells : report'.failedCells = report.failedCells
  blockedColumns : report'.blockedColumns.Perm report.blockedColumns

theorem Reordered.sameCounts {t t' : Table} (h : Reordered t t') (hdone : t.pass.fault? = none)
    (hdone' : t'.pass.fault? = none) : SameCounts t.passReport t'.passReport := by
  have hlength : ∀ u : Table,
      u.plan.blocked.length + u.plan.order.length = u.calculatedPositions.length := fun u => by
    rw [← List.length_append, u.plan_perm.length_eq]
  refine ⟨?_, ?_, ?_, h.blocked_perm⟩
  · exact congrArg Int.ofNat h.lastRow
  · unfold passReport
    dsimp only
    rw [hlength, hlength, h.length_calculatedPositions, h.lastRow]
  · exact congrArg Int.ofNat (h.failed_pass hdone hdone')

end Table

end Worksheet
