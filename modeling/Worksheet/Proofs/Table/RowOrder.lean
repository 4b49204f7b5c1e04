-- The order of the rows that a column holds. A row that is written for the
-- first time goes to the end; a row that is there keeps its place. So a
-- calculated column without raw data holds its rows from zero on, without a
-- gap, in every state that a table can get into.
import Worksheet.Proofs.Table.Runs

namespace Worksheet

/-! ## Rows one after the other -/

/-- The rows from zero on. -/
def firstRows (n : Nat) : List Int := (List.range n).map Int.ofNat

/-- The rows of a column after some more were written. -/
def writtenRows (held rows : List Int) : List Int :=
  rows.foldl (fun held r => if r ∈ held then held else held ++ [r]) held

theorem writtenRows_append (held rows rows' : List Int) :
    writtenRows held (rows ++ rows') = writtenRows (writtenRows held rows) rows' :=
  List.foldl_append

theorem mem_firstRows (n : Nat) (r : Int) : r ∈ firstRows n ↔ 0 ≤ r ∧ r < n := by
  unfold firstRows
  simp only [List.mem_map, List.mem_range, Int.ofNat_eq_natCast]
  constructor
  · rintro ⟨k, hk, rfl⟩
    omega
  · rintro ⟨h0, hlt⟩
    exact ⟨r.toNat, by omega, by omega⟩

theorem firstRows_succ (n : Nat) : firstRows (n + 1) = firstRows n ++ [(n : Int)] := by
  simp [firstRows, List.range_succ]

theorem writtenRows_firstRows (n k : Nat) :
    writtenRows (firstRows n) (firstRows k) = firstRows (max n k) := by
  induction k with
  | zero => simp [firstRows, writtenRows]
  | succ k ih =>
    rw [firstRows_succ, writtenRows_append, ih]
    unfold writtenRows
    rw [List.foldl_cons, List.foldl_nil]
    by_cases hk : k < n
    · have hmem : (k : Int) ∈ firstRows (max n k) := by
        rw [mem_firstRows]
        omega
      rw [if_pos hmem]
      congr 1
      omega
    · have hmem : (k : Int) ∉ firstRows (max n k) := by
        rw [mem_firstRows]
        omega
      have hn : max n k = k := by omega
      have hk' : max n (k + 1) = k + 1 := by omega
      rw [if_neg hmem, hn, hk', firstRows_succ]

/-- The rows before a place are the first rows. -/
theorem eq_firstRows_of_prefix {rows : List Int} {n : Nat} (h : rows <+: firstRows n) :
    ∃ k ≤ n, rows = firstRows k := by
  rw [List.prefix_iff_eq_take] at h
  unfold firstRows at h
  rw [← List.map_take, List.take_range] at h
  exact ⟨min rows.length n, Nat.min_le_right _ _, h⟩

theorem Column.keys_record {c c' : Column} {row : Int} {result : Outcome}
    (h : c.record row result = .ok c') : c'.rows.keys = writtenRows c.rows.keys [row] := by
  unfold Column.record at h
  cases hd : result.display with
  | error f =>
    rw [hd] at h
    cases h
  | ok text =>
    rw [hd] at h
    cases h
    exact OrderedMap.keys_insert _ _ _

theorem Column.keys_failRows (rows : List Int) (c : Column) :
    (rows.foldl (fun c r => c.markFailed r (Table.cycleFailure c)) c).rows.keys =
      writtenRows c.rows.keys rows := by
  induction rows using List.reverseRecOn with
  | nil => rfl
  | append_singleton rows row ih =>
    rw [List.foldl_append, List.foldl_cons, List.foldl_nil, writtenRows_append, ← ih]
    exact Column.keys_record (Column.record_failure _ _ _)

namespace Table

/-! ## The rows of a column of a table -/

/-- The rows that the column at a position holds, in order. -/
def heldRows (t : Table) (i : Nat) : Option (List Int) := t.columns[i]?.map fun c => c.rows.keys

/-- The rows of one column among cells. -/
def rowsOf (i : Nat) (cells : List (Nat × Int)) : List Int :=
  (cells.filter fun cell => decide (cell.1 = i)).map Prod.snd

theorem rowsOf_append (i : Nat) (cells cells' : List (Nat × Int)) :
    rowsOf i (cells ++ cells') = rowsOf i cells ++ rowsOf i cells' := by
  simp [rowsOf]

theorem rowsOf_singleton (i : Nat) (cell : Nat × Int) :
    rowsOf i [cell] = if cell.1 = i then [cell.2] else [] := by
  unfold rowsOf
  by_cases h : cell.1 = i <;> simp [h]

theorem rowsOf_cellsOf_singleton (t : Table) (i j : Nat) :
    rowsOf i (t.cellsOf [j]) = if j = i then t.rowIndices else [] := by
  unfold rowsOf cellsOf
  by_cases h : j = i <;> simp [h, List.filter_map, Function.comp_def]

theorem cellsOf_append (t : Table) (l l' : List Nat) :
    t.cellsOf (l ++ l') = t.cellsOf l ++ t.cellsOf l' := List.flatMap_append

/-- Among the cells of distinct columns, a column has all rows or none. -/
theorem rowsOf_cellsOf (t : Table) {positions : List Nat} (h : positions.Nodup) (i : Nat) :
    rowsOf i (t.cellsOf positions) = if i ∈ positions then t.rowIndices else [] := by
  induction positions using List.reverseRecOn with
  | nil => rfl
  | append_singleton positions j ih =>
    obtain ⟨hpos, -, hdisj⟩ := List.nodup_append.mp h
    rw [cellsOf_append, rowsOf_append, ih hpos, rowsOf_cellsOf_singleton]
    by_cases hj : j = i
    · subst hj
      have hno : j ∉ positions := fun hmem => hdisj j hmem j (by simp) rfl
      simp [hno]
    · have hj' : ¬ i = j := fun e => hj e.symm
      simp [hj, hj']

theorem heldRows_setColumn {t : Table} {i : Nat} {c : Column} (c' : Column)
    (hc : t.columns[i]? = some c) (j : Nat) :
    (t.setColumn i c').heldRows j = if i = j then some c'.rows.keys else t.heldRows j := by
  unfold heldRows
  split
  · rename_i h
    subst h
    rw [getElem?_setColumn_self c' hc, Option.map_some]
  · rename_i h
    rw [getElem?_setColumn_ne c' fun e => h e.symm]

/-- Writing rows of the column at `i`, as the rows of any column show it. -/
theorem heldRows_write {t : Table} {i : Nat} {c c' : Column} {rows : List Int}
    (hc : t.columns[i]? = some c) (hkeys : c'.rows.keys = writtenRows c.rows.keys rows) (j : Nat) :
    (t.setColumn i c').heldRows j =
      (t.heldRows j).map fun held => writtenRows held (if i = j then rows else []) := by
  rw [heldRows_setColumn c' hc]
  by_cases h : i = j
  · subst h
    simp [heldRows, hc, hkeys]
  · simp [h, writtenRows]

theorem heldRows_evaluateCell {t t' : Table} {cell : Nat × Int} {failed : Bool}
    (h : t.evaluateCell cell.1 cell.2 = .ok (t', failed)) (j : Nat) :
    t'.heldRows j = (t.heldRows j).map fun held => writtenRows held (rowsOf j [cell]) := by
  rw [rowsOf_singleton]
  cases hc : t.columns[cell.1]? with
  | none =>
    rw [evaluateCell_eq_ok_of_none h hc]
    by_cases hj : cell.1 = j
    · subst hj
      simp [heldRows, hc]
    · simp [hj, writtenRows]
  | some c =>
    obtain ⟨-, result, c', -, -, -, hr, rfl⟩ := evaluateCell_eq_ok h hc
    exact heldRows_write hc (Column.keys_record hr) j

theorem heldRows_failColumn (t : Table) (i j : Nat) :
    (t.failColumn i).heldRows j =
      (t.heldRows j).map fun held => writtenRows held (rowsOf j (t.cellsOf [i])) := by
  rw [rowsOf_cellsOf_singleton]
  unfold failColumn
  cases hc : t.columns[i]? with
  | none =>
    by_cases hj : i = j
    · subst hj
      simp [heldRows, hc]
    · simp [hj, writtenRows]
  | some c => exact heldRows_write hc (Column.keys_failRows _ c) j

/-! ## The rows after a pass -/

/-- A run without a fault writes its cells, column by column. -/
theorem heldRows_foldl_step {p : Progress} {cells : List (Nat × Int)}
    (hdone : (cells.foldl Progress.step p).fault? = none) (j : Nat) :
    (cells.foldl Progress.step p).table.heldRows j =
      (p.table.heldRows j).map fun held => writtenRows held (rowsOf j cells) := by
  induction cells using List.reverseRecOn with
  | nil => simp [rowsOf, writtenRows]
  | append_singleton cells cell ih =>
    rw [List.foldl_append, List.foldl_cons, List.foldl_nil] at hdone ⊢
    obtain ⟨hbefore, failed, hcell⟩ := step_fault?_eq_none hdone
    rw [heldRows_evaluateCell hcell, ih hbefore, Option.map_map]
    simp only [rowsOf_append, writtenRows_append, Function.comp_def]

theorem heldRows_blockedFailed (t : Table) (j : Nat) :
    t.blockedFailed.heldRows j =
      (t.heldRows j).map fun held => writtenRows held (rowsOf j (t.cellsOf t.plan.blocked)) := by
  unfold blockedFailed
  have hcolumns : ∀ i ∈ t.plan.blocked, ∃ c, t.columns[i]? = some c := by
    intro i hi
    obtain ⟨c, hc, -⟩ := (mem_calculatedPositions t i).mp (t.blocked_subset hi)
    exact ⟨c, hc⟩
  generalize t.plan.blocked = l at *
  induction l using List.reverseRecOn with
  | nil => simp [cellsOf, rowsOf, writtenRows]
  | append_singleton l i ih =>
    have hl : ∀ k ∈ l, ∃ c, t.columns[k]? = some c :=
      fun k hk => hcolumns k (List.mem_append_left _ hk)
    have hframe := (foldl_failColumn_spec t l hl).1
    rw [List.foldl_append, List.foldl_cons, List.foldl_nil, heldRows_failColumn, ih hl,
      Option.map_map, hframe.cellsOf]
    simp only [cellsOf_append, rowsOf_append, writtenRows_append, Function.comp_def]

/-- The plan shares out the calculated columns. -/
theorem plan_perm (t : Table) : (t.plan.blocked ++ t.plan.order).Perm t.calculatedPositions := by
  cases hs : t.schedule with
  | declaration =>
    unfold plan
    rw [hs]
    exact List.Perm.refl _
  | dependency =>
    obtain ⟨horder, hblocked⟩ := plan_of_dependency hs
    rw [horder, hblocked, ← graph_nodes]
    have hperm := ReferenceGraph.order_append_blocked_perm t.graph_consistent
    refine List.Perm.trans ?_ hperm
    exact ((List.mergeSort_perm _ _).append_right _).trans List.perm_append_comm

theorem plan_nodup (t : Table) : (t.plan.blocked ++ t.plan.order).Nodup :=
  (t.plan_perm.nodup_iff).mpr t.calculatedPositions_nodup

/-- What the columns hold in the midst of a pass: the blocked columns have
all their rows, and the others those that had their turn. -/
theorem heldRows_turns {t : Table} {failed : Nat} {cells : List (Nat × Int)}
    (hdone : (cells.foldl Progress.step ⟨t.blockedFailed, failed, none⟩).fault? = none) (j : Nat) :
    (cells.foldl Progress.step ⟨t.blockedFailed, failed, none⟩).table.heldRows j =
      (t.heldRows j).map fun held =>
        writtenRows held (rowsOf j (t.cellsOf t.plan.blocked ++ cells)) := by
  rw [heldRows_foldl_step hdone, heldRows_blockedFailed, Option.map_map]
  simp only [rowsOf_append, writtenRows_append, Function.comp_def]

/-- The cells of a pass, those of the blocked columns first. -/
theorem rowsOf_planned (t : Table) (j : Nat) :
    rowsOf j (t.cellsOf t.plan.blocked ++ t.cellsToDo) =
      if j ∈ t.calculatedPositions then t.rowIndices else [] := by
  unfold cellsToDo
  rw [← cellsOf_append, rowsOf_cellsOf t t.plan_nodup]
  simp only [t.plan_perm.mem_iff]

/-- A pass to its end writes all rows of the calculated columns. -/
theorem heldRows_pass {t : Table} (hdone : t.pass.fault? = none) (j : Nat) :
    t.pass.table.heldRows j = (t.heldRows j).map fun held =>
      if j ∈ t.calculatedPositions then writtenRows held t.rowIndices else held := by
  unfold pass at hdone ⊢
  rw [heldRows_turns hdone, rowsOf_planned]
  split
  · rfl
  · rfl

/-- A run that a fault stops is a shorter run without a fault. -/
theorem exists_run_without_fault {p : Progress} (hstart : p.fault? = none)
    (cells : List (Nat × Int)) :
    ∃ before, before <+: cells ∧ (before.foldl Progress.step p).fault? = none ∧
      (cells.foldl Progress.step p).table = (before.foldl Progress.step p).table := by
  induction cells using List.reverseRecOn with
  | nil => exact ⟨[], List.prefix_rfl, hstart, rfl⟩
  | append_singleton cells cell ih =>
    obtain ⟨before, hprefix, hnone, htable⟩ := ih
    have hlonger : before <+: cells ++ [cell] := hprefix.trans (List.prefix_append _ _)
    have hsnoc : (cells ++ [cell]).foldl Progress.step p =
        (cells.foldl Progress.step p).step cell := by simp [List.foldl_append]
    rcases step_cases (cells.foldl Progress.step p) cell with
      ⟨f, -, hs⟩ | ⟨f, -, hs⟩ | ⟨u, failed, -, -, hs⟩
    · exact ⟨before, hlonger, hnone, by rw [hsnoc, hs, htable]⟩
    · exact ⟨before, hlonger, hnone, by rw [hsnoc, hs]; exact htable⟩
    · exact ⟨cells ++ [cell], List.prefix_rfl, by rw [hsnoc, hs], rfl⟩

/-! ## The invariant -/

/-- A column without raw data holds its first rows, and none if it is not
calculated. -/
def RowsInOrder (t : Table) : Prop :=
  ∀ (i : Nat) (c : Column), t.columns[i]? = some c → t.data.get? i = none →
    ∃ n ≤ t.lastRow + 1, c.rows.keys = firstRows n ∧ (c.isCalculated = false → n = 0)

theorem rowsInOrder_withoutRows (c : Column) (last : Nat) :
    ∃ n ≤ last + 1, c.withoutRows.rows.keys = firstRows n ∧
      (c.withoutRows.isCalculated = false → n = 0) :=
  ⟨0, Nat.zero_le _, rfl, fun _ => rfl⟩

theorem RowsInOrder.append {t : Table} (h : RowsInOrder t) (columns : List Column) :
    RowsInOrder (t.append columns) := by
  intro i c hc hraw
  unfold Table.append at hc
  dsimp only at hc
  rcases Nat.lt_or_ge i t.columns.length with hlt | hge
  · rw [List.getElem?_append_left hlt] at hc
    exact h i c hc hraw
  · rw [List.getElem?_append_right hge, List.getElem?_map, Option.map_eq_some_iff] at hc
    obtain ⟨d, -, rfl⟩ := hc
    exact rowsInOrder_withoutRows d _

theorem RowsInOrder.replace {t t' : Table} (h : RowsInOrder t) {old : String} {column : Column}
    (hr : t.replace old column = .ok t') : RowsInOrder t' := by
  unfold Table.replace at hr
  cases hp : t.position old with
  | error f =>
    rw [hp] at hr
    cases hr
  | ok k =>
    rw [hp] at hr
    cases hr
    intro i c hc hraw
    by_cases hik : i = k
    · subst hik
      unfold setColumn at hc
      simp only [List.getElem?_set_self', Option.map_eq_map, Option.map_eq_some_iff] at hc
      obtain ⟨d, -, rfl⟩ := hc
      exact rowsInOrder_withoutRows column _
    · rw [getElem?_setColumn_ne _ hik] at hc
      exact h i c hc hraw

/-- The invariant in the midst of a pass over a table that has its data
bound. -/
theorem RowsInOrder.turns {t : Table} (h : RowsInOrder t) (failed : Nat)
    {cells : List (Nat × Int)} (hcells : cells <+: t.cellsToDo)
    (hdone : (cells.foldl Progress.step ⟨t.blockedFailed, failed, none⟩).fault? = none) :
    RowsInOrder (cells.foldl Progress.step ⟨t.blockedFailed, failed, none⟩).table := by
  intro i c hc hraw
  obtain ⟨hframe, -⟩ := foldl_step_blockedFailed_spec t failed fun cell hcell =>
    hcells.subset hcell
  obtain ⟨d, hd, hsame⟩ := exists_of_shape_eq hframe.shape hc
  rw [hframe.data] at hraw
  obtain ⟨n, hn, hkeys, hplain⟩ := h i d hd hraw
  have hheld := heldRows_turns hdone i
  unfold heldRows at hheld
  rw [hc, hd, Option.map_some, Option.map_some, Option.map_some, Option.some.injEq, hkeys] at hheld
  -- the rows that had their turn are the first ones
  have hprefix : rowsOf i (t.cellsOf t.plan.blocked ++ cells) <+:
      rowsOf i (t.cellsOf t.plan.blocked ++ t.cellsToDo) :=
    (((List.prefix_append_right_inj _).mpr hcells).filter _).map _
  rw [rowsOf_planned] at hprefix
  have hlast := hframe.lastRow
  split at hprefix
  · rename_i hcalc
    obtain ⟨k, hk, hrows⟩ := eq_firstRows_of_prefix (n := t.lastRow + 1) hprefix
    obtain ⟨e, he, hecalc⟩ := (mem_calculatedPositions t i).mp hcalc
    rw [hd, Option.some.injEq] at he
    subst he
    rw [hrows, writtenRows_firstRows] at hheld
    refine ⟨max n k, by omega, hheld, fun hno => ?_⟩
    rw [← Column.isCalculated_eq_of_withoutRows hsame, hecalc] at hno
    cases hno
  · rw [List.prefix_nil.mp hprefix] at hheld
    refine ⟨n, by omega, hheld, fun hno => hplain ?_⟩
    rw [Column.isCalculated_eq_of_withoutRows hsame]
    exact hno

theorem RowsInOrder.recalculate {t : Table} (h : RowsInOrder t) (hkept : Kept t) :
    RowsInOrder t.recalculate.table := by
  have hbound : RowsInOrder t.bindData := by
    intro i c hc hraw
    rw [getElem?_bindData, Option.map_eq_some_iff] at hc
    obtain ⟨d, hd, rfl⟩ := hc
    have hraw' : t.data.get? i = none := hraw
    obtain ⟨n, hn, hkeys, hplain⟩ := h i d hd hraw'
    have hlast : t.lastRow ≤ t.bindData.lastRow := hkept.lastRow_le
    unfold bindRaw
    rw [hraw']
    exact ⟨n, by omega, hkeys, hplain⟩
  obtain ⟨⟨report?, he⟩, -⟩ := t.recalculate_eq
  obtain ⟨before, hprefix, hdone, htable⟩ := exists_run_without_fault
    (p := ⟨t.bindData.blockedFailed, _, none⟩) rfl t.bindData.cellsToDo
  have hpass : RowsInOrder t.bindData.pass.table := by
    unfold pass
    rw [htable]
    exact hbound.turns _ hprefix hdone
  rw [he]
  exact hpass

/-- In every state of a table over the data the rows are in order. -/
theorem rowsInOrder_after (data : RawData) (schedule : Schedule) (ev : Evaluator)
    (changes : List Change) : RowsInOrder ((ofData data schedule ev).after changes) := by
  induction changes using List.reverseRecOn with
  | nil =>
    intro i c hc
    simp [after, ofData] at hc
  | append_singleton changes ch ih =>
    obtain ⟨hkept, -⟩ := after_spec data schedule ev changes
    rw [after_snoc]
    cases ch with
    | append columns => exact ih.append columns
    | replace old column =>
      unfold Table.change
      dsimp only
      cases hr : Table.replace _ old column with
      | ok t' => exact ih.replace hr
      | error f => exact ih
    | recalculate => exact ih.recalculate hkept

end Table

end Worksheet
