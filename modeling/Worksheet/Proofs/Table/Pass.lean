-- A whole recalculation after the data is bound: the blocked columns fail,
-- and then the cells of the others are taken in the order of the plan. The
-- cells come out distinct, and none of them reads a later one.
import Worksheet.Proofs.Table.Evaluation

open Relation

namespace Worksheet.Table

/-! ## The two halves of a recalculation -/

/-- The table with its blocked columns failed. -/
def blockedFailed (t : Table) : Table := t.plan.blocked.foldl failColumn t

/-- The cells to evaluate, in order. -/
def cellsToDo (t : Table) : List (Nat × Int) := t.cellsOf t.plan.order

/-- The run of a pass over some cells. -/
def turns (t : Table) (cells : List (Nat × Int)) : Progress :=
  cells.foldl Progress.step ⟨t.blockedFailed, t.plan.blocked.length * (t.lastRow + 1), none⟩

/-- The pass over the cells, to its end or to a fault. -/
def pass (t : Table) : Progress :=
  t.cellsToDo.foldl Progress.step
    ⟨t.blockedFailed, t.plan.blocked.length * (t.lastRow + 1), none⟩

theorem turns_snoc (t : Table) (cells : List (Nat × Int)) (cell : Nat × Int) :
    t.turns (cells ++ [cell]) = (t.turns cells).step cell := by
  simp [turns, List.foldl_append]

/-! ## What the plan holds -/

theorem plan_of_dependency {t : Table} (h : t.schedule = .dependency) :
    t.plan.order = t.graph.order ∧ t.plan.blocked = t.graph.blocked.mergeSort := by
  unfold plan
  rw [h]
  exact ⟨rfl, rfl⟩

theorem order_subset (t : Table) {i : Nat} (h : i ∈ t.plan.order) :
    i ∈ t.calculatedPositions := by
  cases hs : t.schedule with
  | declaration =>
    unfold plan at h
    rw [hs] at h
    exact h
  | dependency =>
    rw [(plan_of_dependency hs).1] at h
    exact t.graph_nodes ▸ ReferenceGraph.mem_nodes_of_mem_order t.graph_consistent h

theorem blocked_subset (t : Table) {i : Nat} (h : i ∈ t.plan.blocked) :
    i ∈ t.calculatedPositions := by
  cases hs : t.schedule with
  | declaration =>
    unfold plan at h
    rw [hs] at h
    exact absurd h List.not_mem_nil
  | dependency =>
    rw [(plan_of_dependency hs).2, List.mem_mergeSort, ReferenceGraph.mem_blocked_iff,
      graph_nodes] at h
    exact h.1

/-- By the plan, the columns fail from which a cycle of references is
reached. -/
theorem mem_blocked_iff_reachesCycle {t : Table} (hs : t.schedule = .dependency) (i : Nat) :
    i ∈ t.plan.blocked ↔ ReachesCycle (RefersTo t.columns) i := by
  rw [(plan_of_dependency hs).2, List.mem_mergeSort,
    ReferenceGraph.mem_blocked_iff_reachesCycle t.graph_consistent, graph_readsNode]

/-- All other calculated columns are evaluated. -/
theorem mem_order_iff_not_reachesCycle {t : Table} (hs : t.schedule = .dependency) (i : Nat) :
    i ∈ t.plan.order ↔
      i ∈ t.calculatedPositions ∧ ¬ ReachesCycle (RefersTo t.columns) i := by
  rw [(plan_of_dependency hs).1, ← graph_readsNode,
    ← ReferenceGraph.mem_blocked_iff_reachesCycle t.graph_consistent,
    ReferenceGraph.mem_blocked_iff, ← graph_nodes]
  constructor
  · intro h
    exact ⟨ReferenceGraph.mem_nodes_of_mem_order t.graph_consistent h, fun hb => hb.2 h⟩
  · rintro ⟨hnode, hb⟩
    by_contra ho
    exact hb ⟨hnode, ho⟩

/-! ## The cells in order -/

theorem mem_cellsOf (t : Table) (positions : List Nat) (i : Nat) (row : Int) :
    (i, row) ∈ t.cellsOf positions ↔ i ∈ positions ∧ row ∈ t.rowIndices := by
  unfold cellsOf
  simp only [List.mem_flatMap, List.mem_map, Prod.mk.injEq]
  constructor
  · rintro ⟨j, hj, r, hr, rfl, rfl⟩
    exact ⟨hj, hr⟩
  · rintro ⟨hi, hr⟩
    exact ⟨i, hi, row, hr, rfl, rfl⟩

theorem rowIndices_nodup (t : Table) : t.rowIndices.Nodup :=
  List.nodup_range.map fun _ _ h => Int.ofNat.inj h

theorem cellsOf_nodup (t : Table) {positions : List Nat} (h : positions.Nodup) :
    (t.cellsOf positions).Nodup := by
  unfold cellsOf
  rw [List.nodup_flatMap]
  refine ⟨fun i _ => t.rowIndices_nodup.map fun _ _ he => (Prod.mk.inj he).2, ?_⟩
  refine h.imp fun {i j} hij => ?_
  unfold Function.onFun
  rw [List.disjoint_left]
  intro cell hi hj
  obtain ⟨r, -, rfl⟩ := List.mem_map.mp hi
  obtain ⟨r', -, he⟩ := List.mem_map.mp hj
  exact hij (Prod.mk.inj he).1.symm

/-- What holds between all places of a list, the earlier first, and of each
place with itself, holds between the cells of these columns. -/
theorem cellsOf_pairwise (t : Table) {positions : List Nat} {r : Nat → Nat → Prop}
    (h : positions.Pairwise r) (hself : ∀ i ∈ positions, r i i) :
    (t.cellsOf positions).Pairwise fun a b => r a.1 b.1 := by
  unfold cellsOf
  rw [List.pairwise_flatMap]
  refine ⟨fun i hi => ?_, h.imp fun {i j} hij => ?_⟩
  · rw [List.pairwise_map]
    exact List.pairwise_of_forall fun _ _ => hself i hi
  · intro a ha b hb
    obtain ⟨_, -, rfl⟩ := List.mem_map.mp ha
    obtain ⟨_, -, rfl⟩ := List.mem_map.mp hb
    exact hij

/-- Between calculated columns, to name a column is to refer to it. -/
theorem refersTo_of_namesColumn {t : Table} {i j : Nat} (hi : i ∈ t.calculatedPositions)
    (hj : j ∈ t.calculatedPositions) (h : NamesColumn t.columns i j) :
    RefersTo t.columns i j := by
  obtain ⟨c, name, hc, hread, hs⟩ := h
  obtain ⟨c', hc', hcalc⟩ := (mem_calculatedPositions t i).mp hi
  obtain ⟨d, hd, hdcalc⟩ := (mem_calculatedPositions t j).mp hj
  rw [hc, Option.some.injEq] at hc'
  exact ⟨c, d, name, hc, hc' ▸ hcalc, hread, hs, hd, hdcalc⟩

/-- No column of the order names itself. -/
theorem not_namesColumn_self {t : Table} (hs : t.schedule = .dependency) {i : Nat}
    (hi : i ∈ t.plan.order) : ¬ NamesColumn t.columns i i := by
  intro h
  have hcalc := t.order_subset hi
  have hself := refersTo_of_namesColumn hcalc hcalc h
  exact ((mem_order_iff_not_reachesCycle hs i).mp hi).2 ⟨i, .refl, .single hself⟩

/-- What a column of the order refers to stands in the order, before it. -/
theorem idxOf_order_lt {t : Table} (hs : t.schedule = .dependency) {i j : Nat}
    (hi : i ∈ t.plan.order) (h : RefersTo t.columns i j) :
    j ∈ t.plan.order ∧ t.plan.order.idxOf j < t.plan.order.idxOf i := by
  rw [(plan_of_dependency hs).1] at hi ⊢
  rw [← graph_readsNode] at h
  exact ReferenceGraph.idxOf_lt_of_readsNode t.graph_consistent hi h

/-- No column of the order names a later one. -/
theorem order_pairwise {t : Table} (hs : t.schedule = .dependency) :
    t.plan.order.Pairwise fun i j => ¬ NamesColumn t.columns i j := by
  have hfirst := ReferenceGraph.order_readFirst t.graph_consistent
  have hnodup := ReferenceGraph.order_nodup t.graph_consistent
  rw [← (plan_of_dependency hs).1] at hfirst hnodup
  rw [List.pairwise_iff_forall_sublist]
  intro i j hsub hn
  obtain ⟨before, after, he, hj⟩ : ∃ before after,
      t.plan.order = before ++ i :: after ∧ j ∈ after := by
    obtain ⟨before, rest, he, hb, hr⟩ := List.cons_sublist_iff.mp hsub
    obtain ⟨l, l', rfl⟩ := List.append_of_mem hb
    exact ⟨l, l' ++ rest, by simp [he], List.mem_append_right _ (List.singleton_sublist.mp hr)⟩
  have hi : i ∈ t.plan.order := by simp [he]
  have hj' : j ∈ t.plan.order := by simp [he, hj]
  have hrefers := refersTo_of_namesColumn (t.order_subset hi) (t.order_subset hj') hn
  rw [← graph_readsNode] at hrefers
  -- what `i` refers to stands before it, and `j` stands after it
  have hb : j ∈ before := hfirst before i after he j hrefers
  rw [he] at hnodup
  exact (List.nodup_append.mp hnodup).2.2 j hb j (List.mem_cons_of_mem _ hj) rfl

/-! ## The pass -/

/-- The cells of some columns are a matter of the frame. -/
theorem SameFrame.cellsOf {t t' : Table} (h : SameFrame t t') (positions : List Nat) :
    t'.cellsOf positions = t.cellsOf positions := by
  unfold Table.cellsOf rowIndices
  rw [h.lastRow]

theorem blockedFailed_spec (t : Table) :
    SameFrame t t.blockedFailed ∧
      (∀ i ∈ t.plan.blocked, ∀ c, t.columns[i]? = some c → ∀ row ∈ t.rowIndices,
        t.blockedFailed.Holds i row (.failure (cycleFailure c))) ∧
      ∀ j r, ¬ (j ∈ t.plan.blocked ∧ r ∈ t.rowIndices) →
        t.blockedFailed.stored j r = t.stored j r := by
  apply foldl_failColumn_spec t t.plan.blocked
  intro i hi
  obtain ⟨c, hc, -⟩ := (mem_calculatedPositions t i).mp (t.blocked_subset hi)
  exact ⟨c, hc⟩

/-- The report of a pass that came to its end. -/
def passReport (t : Table) : Report :=
  ⟨t.lastRow, ((t.plan.blocked.length + t.plan.order.length) * (t.lastRow + 1) : Nat),
    t.pass.failed, t.namesAt t.plan.blocked, t.schedule.name⟩

/-- A recalculation is the pass over the table with its data bound. It ends
with a report, or stops at the fault of the pass. -/
theorem recalculate_cases (t : Table) :
    (∃ f, t.bindData.pass.fault? = some f ∧ t.recalculate.report = .error f ∧
        t.recalculate.table = t.bindData.pass.table) ∨
      (t.bindData.pass.fault? = none ∧ t.recalculate.report = .ok t.bindData.passReport ∧
        t.recalculate.table =
          { t.bindData.pass.table with report? := some t.bindData.passReport }) := by
  have hcells := (t.bindData.blockedFailed_spec).1.cellsOf t.bindData.plan.order
  unfold blockedFailed at hcells
  unfold recalculate passReport pass blockedFailed cellsToDo
  dsimp only
  rw [hcells]
  cases hp : (List.foldl Progress.step _ (t.bindData.cellsOf t.bindData.plan.order)).fault? with
  | some f => exact Or.inl ⟨f, rfl, rfl, rfl⟩
  | none => exact Or.inr ⟨rfl, rfl, rfl⟩

theorem recalculate_eq (t : Table) :
    (∃ report?, t.recalculate.table = { t.bindData.pass.table with report? := report? }) ∧
      (∀ f, t.recalculate.report = .error f ↔ t.bindData.pass.fault? = some f) := by
  rcases t.recalculate_cases with ⟨g, hfault, hreport, htable⟩ | ⟨hfault, hreport, htable⟩
  · rw [hfault, hreport, htable]
    exact ⟨⟨t.bindData.pass.table.report?, rfl⟩, fun f => by simp⟩
  · rw [hfault, hreport, htable]
    exact ⟨⟨_, rfl⟩, fun f => by simp⟩

/-- A recalculation that reports comes from a pass to its end. -/
theorem pass_of_report {t : Table} {report : Report} (h : t.recalculate.report = .ok report) :
    t.bindData.pass.fault? = none ∧ report = t.bindData.passReport ∧
      t.recalculate.table = { t.bindData.pass.table with report? := some report } := by
  rcases t.recalculate_cases with ⟨f, -, hreport, -⟩ | ⟨hdone, hreport, htable⟩
  · rw [hreport] at h
    cases h
  · rw [hreport] at h
    cases h
    exact ⟨hdone, rfl, htable⟩

/-- A turn writes its cell, or changes nothing. -/
theorem step_table (p : Progress) (cell : Nat × Int) :
    (p.step cell).table = p.table ∨
      ∃ result, Writes p.table cell.1 cell.2 result (p.step cell).table := by
  rcases step_cases p cell with ⟨f, -, hs⟩ | ⟨f, -, hs⟩ | ⟨t, failed, -, he, hs⟩
  · exact Or.inl (by rw [hs])
  · exact Or.inl (by rw [hs])
  · rw [hs]
    cases hc : p.table.columns[cell.1]? with
    | none => exact Or.inl (evaluateCell_eq_ok_of_none he hc)
    | some c =>
      obtain ⟨-, result, -, -, -, hw⟩ := evaluateCell_spec he hc
      exact Or.inr ⟨result, hw⟩

/-- Whatever faults, a run of turns leaves the frame as it is, and changes
only its own cells, to outcomes. -/
theorem foldl_step_spec (p : Progress) (cells : List (Nat × Int)) :
    let t := (cells.foldl Progress.step p).table
    SameFrame p.table t ∧ ∀ i row, t.stored i row = p.table.stored i row ∨
      (i, row) ∈ cells ∧ ∃ result, t.Holds i row result := by
  induction cells using List.reverseRecOn with
  | nil => exact ⟨SameFrame.refl _, fun _ _ => Or.inl rfl⟩
  | append_singleton cells cell ih =>
    obtain ⟨hframe, hcells⟩ := ih
    rw [List.foldl_append, List.foldl_cons, List.foldl_nil]
    generalize cells.foldl Progress.step p = q at *
    rcases step_table q cell with he | ⟨result, hw⟩
    · rw [he]
      refine ⟨hframe, fun i row => ?_⟩
      rcases hcells i row with hs | ⟨hmem, hholds⟩
      · exact Or.inl hs
      · exact Or.inr ⟨List.mem_append_left _ hmem, hholds⟩
    · refine ⟨hframe.trans hw.frame, fun i row => ?_⟩
      by_cases hcell : (i, row) = cell
      · subst hcell
        exact Or.inr ⟨by simp, result, hw.holds⟩
      · have hkept := hw.kept i row hcell
        rcases hcells i row with hs | ⟨hmem, result', hholds⟩
        · exact Or.inl (hkept.trans hs)
        · exact Or.inr ⟨List.mem_append_left _ hmem, result', hholds.of_stored hkept⟩

/-- A part of the pass leaves the frame as it is, and changes only cells of
calculated columns, to outcomes. -/
theorem foldl_step_blockedFailed_spec (t : Table) (failed : Nat) {cells : List (Nat × Int)}
    (hcells : ∀ cell ∈ cells, cell ∈ t.cellsToDo) :
    let t' := (cells.foldl Progress.step ⟨t.blockedFailed, failed, none⟩).table
    SameFrame t t' ∧ ∀ i row, t'.stored i row = t.stored i row ∨
      i ∈ t.calculatedPositions ∧ row ∈ t.rowIndices ∧ ∃ result, t'.Holds i row result := by
  obtain ⟨hframe, hfailed, hkept⟩ := t.blockedFailed_spec
  obtain ⟨hframe', hwritten⟩ := foldl_step_spec ⟨t.blockedFailed, failed, none⟩ cells
  refine ⟨hframe.trans hframe', fun i row => ?_⟩
  rcases hwritten i row with hs | ⟨hmem, hholds⟩
  · by_cases hb : i ∈ t.plan.blocked ∧ row ∈ t.rowIndices
    · obtain ⟨hi, hrow⟩ := hb
      obtain ⟨c, hc, -⟩ := (mem_calculatedPositions t i).mp (t.blocked_subset hi)
      exact Or.inr ⟨t.blocked_subset hi, hrow, _, (hfailed i hi c hc row hrow).of_stored hs⟩
    · exact Or.inl (hs.trans (hkept i row hb))
  · obtain ⟨hi, hrow⟩ := (mem_cellsOf t t.plan.order i row).mp (hcells _ hmem)
    exact Or.inr ⟨t.order_subset hi, hrow, hholds⟩

/-- So does the whole pass, whether it faults or not. -/
theorem pass_cells (t : Table) :
    SameFrame t t.pass.table ∧ ∀ i row, t.pass.table.stored i row = t.stored i row ∨
      i ∈ t.calculatedPositions ∧ row ∈ t.rowIndices ∧
        ∃ result, t.pass.table.Holds i row result :=
  foldl_step_blockedFailed_spec t (t.plan.blocked.length * (t.lastRow + 1)) fun _ h => h

/-- A recalculation leaves the frame that the table has with its data bound. -/
theorem frame_recalculate (t : Table) : SameFrame t.bindData t.recalculate.table := by
  obtain ⟨⟨report?, he⟩, -⟩ := t.recalculate_eq
  obtain ⟨hframe, -⟩ := t.bindData.pass_cells
  rw [he]
  exact ⟨hframe.shape, hframe.data, hframe.lastRow, hframe.hasSummaries, hframe.schedule,
    hframe.evaluator⟩

/-- A pass without a fault leaves the cells of the order in agreement with
what they read, the cells of blocked columns failed, and all else as it
was. -/
theorem pass_spec {t : Table} (hs : t.schedule = .dependency) (hdone : t.pass.fault? = none) :
    SameFrame t t.pass.table ∧
      (∀ i ∈ t.plan.order, ∀ row ∈ t.rowIndices, t.pass.table.FromReferences i row) ∧
      (∀ i ∈ t.plan.blocked, ∀ c, t.columns[i]? = some c → ∀ row ∈ t.rowIndices,
        t.pass.table.Holds i row (.failure (cycleFailure c))) ∧
      ∀ i row, ¬ (i ∈ t.calculatedPositions ∧ row ∈ t.rowIndices) →
        t.pass.table.stored i row = t.stored i row := by
  obtain ⟨hframe, hfailed, hkept⟩ := t.blockedFailed_spec
  have hcells : ∀ i row, (i, row) ∈ t.cellsToDo ↔ i ∈ t.plan.order ∧ row ∈ t.rowIndices :=
    mem_cellsOf t t.plan.order
  have hnames : ∀ {i j}, NamesColumn t.blockedFailed.columns i j → NamesColumn t.columns i j :=
    namesColumn_of_shape_eq hframe.shape
  have hnodup : t.plan.order.Nodup := by
    rw [(plan_of_dependency hs).1]
    exact ReferenceGraph.order_nodup t.graph_consistent
  have hfilled : Filled t.blockedFailed t.cellsToDo t.pass.table := by
    refine filled_foldl_step t.cellsToDo ?_ (t.cellsOf_nodup hnodup) ?_ ?_ hdone
    · rintro ⟨i, row⟩ hcell
      obtain ⟨c, hc, -⟩ := (mem_calculatedPositions t i).mp
        (t.order_subset ((hcells i row).mp hcell).1)
      obtain ⟨c', hc', -⟩ := exists_of_shape_eq hframe.shape.symm hc
      exact ⟨c', hc'⟩
    · rintro ⟨i, row⟩ hcell h
      exact not_namesColumn_self hs ((hcells i row).mp hcell).1 (hnames h)
    · refine (t.cellsOf_pairwise (order_pairwise hs) fun i hi => ?_).imp fun h hn => h (hnames hn)
      exact not_namesColumn_self hs hi
  refine ⟨hframe.trans hfilled.frame, fun i hi row hrow => ?_, fun i hi c hc row hrow => ?_,
    fun i row hout => ?_⟩
  · exact hfilled.written (i, row) ((hcells i row).mpr ⟨hi, hrow⟩)
  · refine (hfailed i hi c hc row hrow).of_stored (hfilled.kept i row fun hcell => ?_)
    have ho := ((mem_order_iff_not_reachesCycle hs i).mp ((hcells i row).mp hcell).1).2
    exact ho ((mem_blocked_iff_reachesCycle hs i).mp hi)
  · rw [hfilled.kept i row fun hcell => ?_, hkept i row fun hb => ?_]
    · exact hout ⟨t.blocked_subset hb.1, hb.2⟩
    · obtain ⟨hi, hrow⟩ := (hcells i row).mp hcell
      exact hout ⟨t.order_subset hi, hrow⟩

end Worksheet.Table
