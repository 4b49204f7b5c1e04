-- Recalculation in the order of declaration. A column that refers to one
-- further down reads what the recalculation before has left there. So every
-- forward reference on the way costs one recalculation more, and then the
-- table holds what a recalculation by dependency gives at once.
import Mathlib.Order.Lattice.Nat
import Worksheet.Proofs.Table.Afresh
import Worksheet.Proofs.Table.FailedCells
import Worksheet.Proofs.Table.Independence

open Relation

namespace Worksheet

/-! ## Forward references -/

/-- From position `i`, a chain of references goes forward `n` times, to a
position further down. -/
inductive ForwardChain (refers : Nat → Nat → Prop) : Nat → Nat → Prop where
  | stop (i : Nat) : ForwardChain refers i 0
  | back {i j n : Nat} : refers i j → j ≤ i → ForwardChain refers j n → ForwardChain refers i n
  | forward {i j n : Nat} :
      refers i j → i < j → ForwardChain refers j n → ForwardChain refers i (n + 1)

/-- Every chain from position `i` goes forward less than `n` times. -/
def Within (refers : Nat → Nat → Prop) (n i : Nat) : Prop := ∀ m, ForwardChain refers i m → m < n

section

variable {refers : Nat → Nat → Prop} {n i j : Nat}

theorem not_within_zero : ¬ Within refers 0 i := fun h => Nat.not_lt_zero 0 (h 0 (.stop i))

theorem Within.of_back (h : Within refers n i) (hr : refers i j) (hji : j ≤ i) :
    Within refers n j := fun m hm => h m (.back hr hji hm)

theorem Within.of_forward (h : Within refers (n + 1) i) (hr : refers i j) (hij : i < j) :
    Within refers n j := fun m hm => Nat.lt_of_succ_lt_succ (h (m + 1) (.forward hr hij hm))

end

namespace Table

/-! ## Tables without cycles -/

theorem mem_order_of_acyclic {t : Table} (hs : t.schedule = .dependency)
    (hacyclic : ∀ i, ¬ TransGen (RefersTo t.columns) i i) {i : Nat}
    (hi : i ∈ t.calculatedPositions) : i ∈ t.plan.order := by
  rw [mem_order_iff_not_reachesCycle hs]
  refine ⟨hi, ?_⟩
  rintro ⟨c, -, hcycle⟩
  exact hacyclic c hcycle

theorem blocked_eq_nil_of_acyclic {t : Table} (hs : t.schedule = .dependency)
    (hacyclic : ∀ i, ¬ TransGen (RefersTo t.columns) i i) : t.plan.blocked = [] := by
  rw [List.eq_nil_iff_forall_not_mem]
  intro i hi
  obtain ⟨c, -, hcycle⟩ := (mem_blocked_iff_reachesCycle hs i).mp hi
  exact hacyclic c hcycle

theorem mem_calculatedPositions_of_refersTo {t : Table} {i j : Nat}
    (h : RefersTo t.columns i j) : i ∈ t.calculatedPositions ∧ j ∈ t.calculatedPositions := by
  obtain ⟨c, d, name, hc, hcalc, -, -, hd, hdcalc⟩ := h
  exact ⟨(mem_calculatedPositions t i).mpr ⟨c, hc, hcalc⟩,
    (mem_calculatedPositions t j).mpr ⟨d, hd, hdcalc⟩⟩

/-- A chain goes forward no more often than there are places before its
start in the order. -/
theorem le_idxOf_of_forwardChain {t : Table} (hs : t.schedule = .dependency) {i n : Nat}
    (h : ForwardChain (RefersTo t.columns) i n) (hi : i ∈ t.plan.order) :
    n ≤ t.plan.order.idxOf i := by
  induction h with
  | stop i => exact Nat.zero_le _
  | back hr _ _ ih =>
    obtain ⟨hj, hlt⟩ := idxOf_order_lt hs hi hr
    have := ih hj
    omega
  | forward hr _ _ ih =>
    obtain ⟨hj, hlt⟩ := idxOf_order_lt hs hi hr
    have := ih hj
    omega

/-- Without cycles, some chain goes forward most often. -/
theorem exists_most_forward {t : Table} (hs : t.schedule = .dependency)
    (hacyclic : ∀ i, ¬ TransGen (RefersTo t.columns) i i) :
    ∃ most, IsGreatest {n | ∃ i, ForwardChain (RefersTo t.columns) i n} most := by
  have hbound : ∀ n ∈ {n | ∃ i, ForwardChain (RefersTo t.columns) i n},
      n ≤ t.plan.order.length := by
    rintro n ⟨i, h⟩
    by_cases hi : i ∈ t.plan.order
    · exact Nat.le_trans (le_idxOf_of_forwardChain hs h hi) List.idxOf_le_length
    · cases h with
      | stop => exact Nat.zero_le _
      | back hr _ _ =>
        have hcalc := (mem_calculatedPositions_of_refersTo hr).1
        exact absurd (mem_order_of_acyclic hs hacyclic hcalc) hi
      | forward hr _ _ =>
        have hcalc := (mem_calculatedPositions_of_refersTo hr).1
        exact absurd (mem_order_of_acyclic hs hacyclic hcalc) hi
  have hsome : {n | ∃ i, ForwardChain (RefersTo t.columns) i n}.Nonempty := ⟨0, 0, .stop 0⟩
  exact ⟨_, Nat.sSup_mem hsome ⟨_, hbound⟩, fun n hn => le_csSup ⟨_, hbound⟩ hn⟩

/-! ## Runs that come to agree with another table -/

/-- A cell that reads what another table holds is written as it stands
there, when the other table agrees with what it reads. -/
theorem stored_of_evaluateCell {t t' goal : Table} {i : Nat} {row : Int} {failed : Bool}
    (hshape : t.shape = goal.shape) (hev : t.evaluator = goal.evaluator)
    (h : t.evaluateCell i row = .ok (t', failed)) (hgoal : goal.FromReferences i row)
    (hreads : ∀ j, NamesColumn goal.columns i j → t.stored j row = goal.stored j row) :
    t'.stored i row = goal.stored i row := by
  obtain ⟨d, vars, result, hd, hvars, heval, hholds⟩ := hgoal
  obtain ⟨c, hc, hsame⟩ := exists_of_shape_eq hshape.symm hd
  obtain ⟨vars', result', hvars', heval', -, hw⟩ := evaluateCell_spec h hc
  rw [variablesAt_congr (position?_of_shape_eq hshape) hd (Column.reads_eq_of_withoutRows hsame)
    hreads, hvars, Except.ok.injEq] at hvars'
  subst hvars'
  rw [hev, Column.expression_eq_of_withoutRows hsame, heval, Except.ok.injEq] at heval'
  subst heval'
  exact hholds.stored_eq hw.holds

/-- A run writes the cells of good columns as they stand in another table,
when each of them reads good columns that had their turn, and cells that
wait for their turn and agree as they are. -/
theorem stored_foldl_step (good : Nat → Prop) {start goal : Table} {failed : Nat}
    {cells : List (Nat × Int)} (hshape : start.shape = goal.shape)
    (hev : start.evaluator = goal.evaluator)
    (hgoal : ∀ cell ∈ cells, good cell.1 → goal.FromReferences cell.1 cell.2)
    (hreads : ∀ before cell after, cells = before ++ cell :: after → good cell.1 →
      ∀ j, NamesColumn goal.columns cell.1 j → (j, cell.2) ∈ before ∧ good j ∨
        (j, cell.2) ∉ before ∧ start.stored j cell.2 = goal.stored j cell.2)
    (hdone : (cells.foldl Progress.step ⟨start, failed, none⟩).fault? = none) :
    ∀ cell ∈ cells, good cell.1 →
      (cells.foldl Progress.step ⟨start, failed, none⟩).table.stored cell.1 cell.2 =
        goal.stored cell.1 cell.2 := by
  induction cells using List.reverseRecOn with
  | nil => exact fun cell hmem => absurd hmem List.not_mem_nil
  | append_singleton cells cell ih =>
    rw [List.foldl_append, List.foldl_cons, List.foldl_nil] at hdone ⊢
    obtain ⟨hbefore, failed', he⟩ := step_fault?_eq_none hdone
    have hearlier := ih (fun c hc => hgoal c (List.mem_append_left _ hc))
      (fun before c after hsplit => hreads before c (after ++ [cell]) (by simp [hsplit])) hbefore
    obtain ⟨hframe, hwritten⟩ := foldl_step_spec ⟨start, failed, none⟩ cells
    generalize cells.foldl Progress.step ⟨start, failed, none⟩ = q at *
    have hnew : good cell.1 →
        (q.step cell).table.stored cell.1 cell.2 = goal.stored cell.1 cell.2 := by
      intro hgood
      refine stored_of_evaluateCell (hframe.shape.trans hshape) (hframe.evaluator.trans hev) he
        (hgoal cell (by simp) hgood) fun j hj => ?_
      rcases hreads cells cell [] rfl hgood j hj with ⟨hmem, hgood'⟩ | ⟨hno, hsame⟩
      · exact hearlier (j, cell.2) hmem hgood'
      · rcases hwritten j cell.2 with hs | ⟨hmem, -⟩
        · exact hs.trans hsame
        · exact absurd hmem hno
    intro other hmem hgood
    by_cases hcell : other = cell
    · subst hcell
      exact hnew hgood
    · have hmem' : other ∈ cells := by simpa [hcell] using hmem
      rcases step_table q cell with hs | ⟨result, hw⟩
      · rw [hs]
        exact hearlier other hmem' hgood
      · rw [hw.kept other.1 other.2 hcell]
        exact hearlier other hmem' hgood

/-! ## Tables of the same sheet -/

/-- Two tables of the same columns that differ in the cells of calculated
columns at most. -/
structure SameSheet (t t' : Table) : Prop where
  shape : t'.shape = t.shape
  lastRow : t'.lastRow = t.lastRow
  hasSummaries : t'.hasSummaries = t.hasSummaries
  evaluator : t'.evaluator = t.evaluator
  plain : ∀ i row, ¬ (i ∈ t.calculatedPositions ∧ row ∈ t.rowIndices) →
    t'.stored i row = t.stored i row

section

variable {t t' t'' : Table}

theorem SameSheet.calculatedPositions (h : SameSheet t t') :
    t'.calculatedPositions = t.calculatedPositions := by
  rw [calculatedPositions_eq, calculatedPositions_eq, h.shape]

theorem SameSheet.rowIndices (h : SameSheet t t') : t'.rowIndices = t.rowIndices :=
  rowIndices_of_lastRow_eq h.lastRow

theorem SameSheet.symm (h : SameSheet t t') : SameSheet t' t := by
  refine ⟨h.shape.symm, h.lastRow.symm, h.hasSummaries.symm, h.evaluator.symm, fun i row hno => ?_⟩
  rw [h.calculatedPositions, h.rowIndices] at hno
  exact (h.plain i row hno).symm

theorem SameSheet.trans (h : SameSheet t t') (h' : SameSheet t' t'') : SameSheet t t'' := by
  refine ⟨h'.shape.trans h.shape, h'.lastRow.trans h.lastRow, h'.hasSummaries.trans h.hasSummaries,
    h'.evaluator.trans h.evaluator, fun i row hno => ?_⟩
  rw [h'.plain i row ?_, h.plain i row hno]
  rw [h.calculatedPositions, h.rowIndices]
  exact hno

theorem sameSheet_pass (t : Table) : SameSheet t t.pass.table := by
  obtain ⟨hframe, hcells⟩ := t.pass_cells
  refine ⟨hframe.shape, hframe.lastRow, hframe.hasSummaries, hframe.evaluator, fun i row hno => ?_⟩
  rcases hcells i row with hs | ⟨hi, hrow, -⟩
  · exact hs
  · exact absurd ⟨hi, hrow⟩ hno

end

/-! ## One recalculation by declaration -/

theorem calculatedPositions_pairwise (t : Table) :
    t.calculatedPositions.Pairwise (· < ·) := by
  have hall : (t.columns.zipIdx.map Prod.snd).Pairwise (· < ·) := by
    rw [List.zipIdx_map_snd]
    exact List.pairwise_lt_range'
  exact hall.sublist (List.filter_sublist.map _)

theorem cellsToDo_of_declaration {t : Table} (hs : t.schedule = .declaration) :
    t.cellsToDo = t.cellsOf t.calculatedPositions ∧ t.blockedFailed = t := by
  unfold cellsToDo blockedFailed plan
  rw [hs]
  exact ⟨rfl, rfl⟩

/-- In the order of declaration, the cells before a cell are those of the
columns before it, and some of its own column. -/
theorem mem_before_iff_of_declaration {t : Table} (hs : t.schedule = .declaration)
    {before after : List (Nat × Int)} {cell : Nat × Int}
    (he : t.cellsToDo = before ++ cell :: after) {j : Nat} (hj : j ∈ t.calculatedPositions)
    (hne : j ≠ cell.1) : (j, cell.2) ∈ before ↔ j < cell.1 := by
  rw [(cellsToDo_of_declaration hs).1] at he
  have hpairs := t.cellsOf_pairwise (t.calculatedPositions_pairwise.imp Nat.le_of_lt)
    fun _ _ => Nat.le_refl _
  rw [he, List.pairwise_append, List.pairwise_cons] at hpairs
  have hcell : (cell.1, cell.2) ∈ t.cellsOf t.calculatedPositions := by
    rw [he]
    simp
  have hmem : (j, cell.2) ∈ before ++ cell :: after := by
    rw [← he]
    exact (mem_cellsOf t _ _ _).mpr ⟨hj, ((mem_cellsOf t _ _ _).mp hcell).2⟩
  constructor
  · intro hbefore
    have := hpairs.2.2 _ hbefore cell (by simp)
    exact Nat.lt_of_le_of_ne this hne
  · intro hlt
    rw [List.mem_append, List.mem_cons] at hmem
    rcases hmem with hmem | hself | hafter
    · exact hmem
    · exact absurd (congrArg Prod.fst hself) hne
    · have := hpairs.2.1.1 _ hafter
      dsimp only at this
      omega

/-- The columns from which chains go forward less than `n` times hold what
the other table holds. -/
def Settled (t goal : Table) (n : Nat) : Prop :=
  ∀ i ∈ goal.calculatedPositions, Within (RefersTo goal.columns) n i →
    ∀ row ∈ goal.rowIndices, t.stored i row = goal.stored i row

/-- One pass by declaration settles the columns from which chains go forward
once more. What a column reads further up was settled by the same pass, and
what it reads further down by the one before. -/
theorem settled_pass {t goal : Table} {n : Nat} (hs : t.schedule = .declaration)
    (hsame : SameSheet goal t) (hacyclic : ∀ i, ¬ TransGen (RefersTo goal.columns) i i)
    (hgoal : ∀ i ∈ goal.calculatedPositions, ∀ row ∈ goal.rowIndices, goal.FromReferences i row)
    (hforward : ∀ i j, RefersTo goal.columns i j → i < j → Within (RefersTo goal.columns) n j →
      ∀ row ∈ goal.rowIndices, t.stored j row = goal.stored j row)
    (hdone : t.pass.fault? = none) : t.pass.table.Settled goal (n + 1) := by
  obtain ⟨hcells, hstart⟩ := cellsToDo_of_declaration hs
  have hmem : ∀ i row, (i, row) ∈ t.cellsToDo ↔
      i ∈ goal.calculatedPositions ∧ row ∈ goal.rowIndices := by
    intro i row
    rw [hcells, mem_cellsOf, hsame.calculatedPositions, hsame.rowIndices]
  intro i hi hwithin row hrow
  unfold pass at hdone ⊢
  rw [hstart] at hdone ⊢
  apply stored_foldl_step (Within (RefersTo goal.columns) (n + 1)) hsame.shape hsame.evaluator
    ?_ ?_ hdone (i, row) ((hmem i row).mpr ⟨hi, hrow⟩) hwithin
  · rintro ⟨j, r⟩ hcell -
    obtain ⟨hj, hr⟩ := (hmem j r).mp hcell
    exact hgoal j hj r hr
  · intro before cell after he hgood j hn
    have hcell : (cell.1, cell.2) ∈ t.cellsToDo := by
      rw [he]
      simp
    obtain ⟨hk, hr⟩ := (hmem cell.1 cell.2).mp hcell
    by_cases hj : j ∈ goal.calculatedPositions
    · have hrefers := refersTo_of_namesColumn hk hj hn
      have hne : j ≠ cell.1 := by
        rintro rfl
        exact hacyclic cell.1 (.single hrefers)
      have hbefore := mem_before_iff_of_declaration hs he (hsame.calculatedPositions ▸ hj) hne
      rcases Nat.lt_or_ge j cell.1 with hlt | hge
      · exact Or.inl ⟨hbefore.mpr hlt, hgood.of_back hrefers (Nat.le_of_lt hlt)⟩
      · have hlt : cell.1 < j := by omega
        refine Or.inr ⟨fun hin => ?_, ?_⟩
        · have := hbefore.mp hin
          omega
        · exact hforward cell.1 j hrefers hlt (hgood.of_forward hrefers hlt) cell.2 hr
    · refine Or.inr ⟨fun hin => hj ?_, hsame.plain j cell.2 fun hin => hj hin.1⟩
      have hjcell : (j, cell.2) ∈ t.cellsToDo := by
        rw [he]
        exact List.mem_append_left _ hin
      exact ((hmem j cell.2).mp hjcell).1

/-! ## Recalculating again -/

/-- The table after some recalculations. -/
def again (t : Table) (n : Nat) : Table := t.after (List.replicate n .recalculate)

theorem again_succ (t : Table) (n : Nat) : t.again (n + 1) = (t.again n).recalculate.table := by
  unfold again
  rw [List.replicate_succ', after_snoc]
  rfl

theorem afresh_again (t : Table) (n : Nat) : (t.again n).afresh = t.afresh := by
  induction n with
  | zero => rfl
  | succ n ih => rw [again_succ, afresh_recalculate, ih]

theorem stored_recalculate (t : Table) (i : Nat) (row : Int) :
    t.recalculate.table.stored i row = t.bindData.pass.table.stored i row := by
  obtain ⟨⟨report?, he⟩, -⟩ := t.recalculate_eq
  rw [he]
  rfl

theorem stored_bindData_of_unbound {t : Table} {i : Nat} (h : t.data.get? i = none) (row : Int) :
    t.bindData.stored i row = t.stored i row := by
  unfold stored
  rw [getElem?_bindData, Option.map_map]
  apply congrArg (fun f => t.columns[i]?.map f)
  funext c
  simp [bindRaw, h]

/-- Without cycles, a pass by dependency leaves all cells of calculated
columns in agreement with what they read. -/
theorem fromReferences_pass {t : Table} (hs : t.schedule = .dependency)
    (hacyclic : ∀ i, ¬ TransGen (RefersTo t.columns) i i) (hdone : t.pass.fault? = none) :
    ∀ i ∈ t.pass.table.calculatedPositions, ∀ row ∈ t.pass.table.rowIndices,
      t.pass.table.FromReferences i row := by
  obtain ⟨-, hagrees, -, -⟩ := pass_spec hs hdone
  intro i hi row hrow
  rw [t.sameSheet_pass.calculatedPositions] at hi
  rw [t.sameSheet_pass.rowIndices] at hrow
  exact hagrees i (mem_order_of_acyclic hs hacyclic hi) row hrow

/-! ## New tables -/

section

variable (data : RawData) (s : Schedule) (ev : Evaluator) (columns : List Column)

theorem refersTo_bindData_new :
    RefersTo ((ofData data s ev).append columns).bindData.columns = RefersTo columns := by
  have hnames := names_bindData_new data s ev columns
  have hrule := sameRule_bindData_new data s ev columns
  funext i j
  apply propext
  constructor
  · exact refersTo_of_sameRule hnames.symm (hrule i).symm (hrule j).symm
  · exact refersTo_of_sameRule hnames (hrule i) (hrule j)

theorem afresh_new :
    ((ofData data s ev).append columns).afresh = (ofData data s ev).append columns := by
  unfold afresh append ofData
  simp [Column.withoutRows, Column.ofParts, Function.comp_def]

/-- The states that a new table gets into when it is recalculated. -/
theorem again_spec (n : Nat) :
    let t := ((ofData data s ev).append columns).again n
    Kept t ∧ RowsInOrder t ∧ t.data = data ∧ t.schedule = s ∧ t.evaluator = ev ∧
      t.afresh = (ofData data s ev).append columns := by
  obtain ⟨hkept, hdata, hschedule, hev⟩ :=
    after_spec data s ev (.append columns :: List.replicate n .recalculate)
  have horder := rowsInOrder_after data s ev (.append columns :: List.replicate n .recalculate)
  refine ⟨hkept, horder, hdata, hschedule, hev, ?_⟩
  rw [afresh_again, afresh_new]

end

/-- With its data bound, a table is of the same sheet as the table as new. -/
theorem sameSheet_afresh {t : Table} (hkept : Kept t) (horder : RowsInOrder t) :
    SameSheet t.bindData t.afresh.bindData := by
  refine ⟨t.shape_bindData_afresh, t.lastRow_bindData_afresh, ?_, rfl, fun i row hno => ?_⟩
  · rw [hasSummaries_bindData, hasSummaries_bindData, shape_afresh]
  · exact stored_bindData_afresh hkept horder hno

/-- The schedule is no part of the sheet. -/
theorem sameSheet_schedule (data : RawData) (s s' : Schedule) (ev : Evaluator)
    (columns : List Column) :
    SameSheet ((ofData data s ev).append columns).bindData
      ((ofData data s' ev).append columns).bindData :=
  ⟨rfl, rfl, rfl, rfl, fun _ _ _ => rfl⟩

/-- Two passes to their end report the same of one sheet, when they leave the
same and no column is blocked. Only the names of their schedules differ. -/
theorem passReport_eq {t t' : Table} (hsame : SameSheet t t') (hblocked : t.plan.blocked = [])
    (hblocked' : t'.plan.blocked = []) (hdone : t.pass.fault? = none)
    (hdone' : t'.pass.fault? = none)
    (hstored : ∀ i row, t'.pass.table.stored i row = t.pass.table.stored i row) :
    t'.passReport = { t.passReport with schedule := t'.schedule.name } := by
  have hlength : ∀ u : Table, u.plan.blocked.length + u.plan.order.length =
      u.calculatedPositions.length := by
    intro u
    rw [← u.plan_perm.length_eq, List.length_append]
  have hfailed : t'.pass.failed = t.pass.failed := by
    have hcells : t'.cellsOf t'.calculatedPositions = t.cellsOf t.calculatedPositions := by
      unfold cellsOf
      rw [hsame.calculatedPositions, hsame.rowIndices]
    rw [failed_pass hdone, failed_pass hdone', hcells]
    apply List.countP_congr
    intro cell _
    rw [failedAt_of_stored (hstored cell.1 cell.2)]
  unfold passReport
  rw [hlength, hlength, hsame.calculatedPositions, hsame.lastRow, hfailed, hblocked, hblocked']
  rfl

/-! ## The recalculations of one sheet -/

section

variable {data : RawData} {ev : Evaluator} {columns : List Column} {declared ordered : Table}
  (hdeclared : declared = (ofData data .declaration ev).append columns)
  (hordered : ordered = (ofData data .dependency ev).append columns)

include hdeclared hordered

/-- However often it was recalculated, the table by declaration is of the
same sheet as the result by dependency. -/
theorem sameSheet_again (n : Nat) :
    SameSheet ordered.bindData.pass.table (declared.again n).bindData := by
  subst hdeclared hordered
  obtain ⟨hkept, horder, -, -, -, hafresh⟩ := again_spec data .declaration ev columns n
  have hsame := sameSheet_afresh hkept horder
  rw [hafresh] at hsame
  exact (sameSheet_pass _).symm.trans
    ((sameSheet_schedule data .dependency .declaration ev columns).trans hsame.symm)

/-- After some recalculations by declaration, those columns are settled from
which chains go forward less often than there were recalculations. -/
theorem settled_again (hacyclic : ∀ i, ¬ TransGen (RefersTo columns) i i)
    (hunbound : ∀ i j, RefersTo columns i j → i < j → data.get? j = none)
    (hdone : ordered.bindData.pass.fault? = none) (n : Nat)
    (hreports : ∀ m < n, ∃ report, (declared.again m).recalculate.report = .ok report) :
    (declared.again n).Settled ordered.bindData.pass.table n := by
  have hrefers : RefersTo ordered.bindData.pass.table.columns = RefersTo columns := by
    rw [refersTo_of_shape_eq (sameSheet_pass ordered.bindData).shape, hordered,
      refersTo_bindData_new]
  have hs : ordered.bindData.schedule = .dependency := by
    rw [hordered]
    rfl
  have hagrees := fromReferences_pass hs ?_ hdone
  · induction n with
    | zero => exact fun i _ hwithin => absurd hwithin not_within_zero
    | succ n ih =>
      have hbefore := ih fun m hm => hreports m (by omega)
      have hsame := sameSheet_again hdeclared hordered n
      obtain ⟨report, hreport⟩ := hreports n (by omega)
      obtain ⟨hpass, -⟩ := pass_of_report hreport
      obtain ⟨-, -, hdata, hschedule, -, -⟩ := again_spec data .declaration ev columns n
      rw [← hdeclared] at hdata hschedule
      rw [again_succ]
      have hsettled : (declared.again n).bindData.pass.table.Settled
          ordered.bindData.pass.table (n + 1) := by
        apply settled_pass (t := (declared.again n).bindData) hschedule hsame
          (hrefers ▸ hacyclic) hagrees ?_ hpass
        intro i j hij hlt hwithin row hrow
        have hraw : (declared.again n).data.get? j = none := by
          rw [hdata]
          exact hunbound i j (hrefers ▸ hij) hlt
        rw [stored_bindData_of_unbound hraw]
        exact hbefore j (mem_calculatedPositions_of_refersTo hij).2 hwithin row hrow
      intro i hi hwithin row hrow
      rw [stored_recalculate]
      exact hsettled i hi hwithin row hrow
  · rw [hordered, refersTo_bindData_new]
    exact hacyclic

/-- The rows stand in the same order, however often the table by declaration
was recalculated. -/
theorem heldRows_pass_again (n : Nat) (hdone : ordered.bindData.pass.fault? = none)
    (hfirst : declared.bindData.pass.fault? = none)
    (hlast : (declared.again n).bindData.pass.fault? = none) (i : Nat) :
    (declared.again n).bindData.pass.table.heldRows i =
      ordered.bindData.pass.table.heldRows i := by
  obtain ⟨hkept, horder, -, -, -, hafresh⟩ := again_spec data .declaration ev columns n
  rw [← hdeclared] at hkept horder hafresh
  rw [← heldRows_pass_afresh hkept horder hlast (hafresh.symm ▸ hfirst), hafresh,
    heldRows_pass hdone, heldRows_pass hfirst, hdeclared, hordered]
  rfl

/-- When its columns have settled, a recalculation by declaration leaves what
one by dependency leaves, and reports the same. -/
theorem recalculate_of_settled (hacyclic : ∀ i, ¬ TransGen (RefersTo columns) i i) {n : Nat}
    {report report' : Report}
    (hsettled : ∀ i ∈ ordered.bindData.pass.table.calculatedPositions,
      ∀ row ∈ ordered.bindData.pass.table.rowIndices,
        (declared.again n).recalculate.table.stored i row =
          ordered.bindData.pass.table.stored i row)
    (hreport : ordered.recalculate.report = .ok report)
    (hfirst : declared.bindData.pass.fault? = none)
    (hreport' : (declared.again n).recalculate.report = .ok report') :
    SameContents ordered.recalculate.table (declared.again n).recalculate.table ∧
      report' = { report with schedule := Schedule.declaration.name } := by
  have hsame := sameSheet_again hdeclared hordered n
  have hpass := hsame.trans (sameSheet_pass (declared.again n).bindData)
  have hheld := heldRows_pass_again hdeclared hordered n
  obtain ⟨-, -, -, hschedule, -, -⟩ := again_spec data .declaration ev columns n
  rw [← hdeclared] at hschedule
  have hs : (declared.again n).bindData.schedule = .declaration := hschedule
  have hblocked : ordered.bindData.plan.blocked = [] := by
    subst hordered
    apply blocked_eq_nil_of_acyclic rfl
    rw [refersTo_bindData_new]
    exact hacyclic
  have hblocked' : (declared.again n).bindData.plan.blocked = [] := by
    unfold plan
    rw [hs]
  obtain ⟨hdone, hr, htable⟩ := pass_of_report hreport
  obtain ⟨hdone', hr', htable'⟩ := pass_of_report hreport'
  have hstored : ∀ i row, (declared.again n).bindData.pass.table.stored i row =
      ordered.bindData.pass.table.stored i row := by
    intro i row
    by_cases hcell : i ∈ ordered.bindData.pass.table.calculatedPositions ∧
        row ∈ ordered.bindData.pass.table.rowIndices
    · rw [← stored_recalculate]
      exact hsettled i hcell.1 row hcell.2
    · exact hpass.plain i row hcell
  constructor
  · apply SameContents.of_pass ?_ htable htable'
    exact sameContents_of_stored hpass.shape hpass.lastRow hpass.hasSummaries
      (hheld hdone hfirst hdone') hstored
  · have hreports := passReport_eq ((sameSheet_pass _).trans hsame) hblocked hblocked' hdone hdone'
      hstored
    rw [hr', hr, hreports, hs]

end

/-! ## A sheet -/

/-- A column that refers to the one after it. -/
def forwardColumns : List Column :=
  [.ofParts "A" .calculated "a" "#B# + 1" .none, .ofParts "B" .calculated "b" "2" .none]

theorem refersTo_forwardColumns {i j : Nat} (h : RefersTo forwardColumns i j) : i = 0 ∧ j = 1 := by
  obtain ⟨c, d, name, hc, -, hread, hs, -, -⟩ := h
  match i with
  | 0 =>
    have hreads : c.reads = ["B"] := by
      cases hc
      decide +kernel
    rw [hreads, List.mem_singleton] at hread
    subst hread
    have hpos : (lastPositions forwardColumns).get? "B" = some 1 := by decide
    rw [← get?_lastPositions, hpos, Option.some.injEq] at hs
    exact ⟨rfl, hs.symm⟩
  | 1 =>
    have hreads : c.reads = [] := by
      cases hc
      decide +kernel
    rw [hreads] at hread
    cases hread

theorem forwardColumns_acyclic (i : Nat) : ¬ TransGen (RefersTo forwardColumns) i i := by
  intro h
  obtain ⟨j, hfirst, -⟩ := TransGen.head'_iff.mp h
  obtain ⟨k, -, hlast⟩ := TransGen.tail'_iff.mp h
  have hi := (refersTo_forwardColumns hfirst).1
  have hi' := (refersTo_forwardColumns hlast).2
  omega

theorem le_one_of_forwardColumns {i n : Nat}
    (h : ForwardChain (RefersTo forwardColumns) i n) : n ≤ 1 := by
  have hlast : ∀ m, ForwardChain (RefersTo forwardColumns) 1 m → m = 0 := by
    intro m hm
    cases hm with
    | stop => rfl
    | back hr _ _ => exact absurd (refersTo_forwardColumns hr).1 (by omega)
    | forward hr _ _ => exact absurd (refersTo_forwardColumns hr).1 (by omega)
  cases h with
  | stop => omega
  | back hr hle _ =>
    obtain ⟨rfl, rfl⟩ := refersTo_forwardColumns hr
    omega
  | forward hr _ hrest =>
    obtain ⟨-, rfl⟩ := refersTo_forwardColumns hr
    rw [hlast _ hrest]

/-! ## The law -/

/-- Without cycles, and when no column that is referred to from further up has
raw data of its own: let `most` be how often a chain of references goes
forward. After so many recalculations by declaration, every further one leaves
what the first one by dependency leaves, and reports the same but for the
schedule. A recalculation can only stop at a value of the data or of the
engine that has no text. -/
theorem declaration_settles (data : RawData) (ev : Evaluator) (columns : List Column)
    (hacyclic : ∀ i, ¬ TransGen (RefersTo columns) i i)
    (hunbound : ∀ i j, RefersTo columns i j → i < j → data.get? j = none) :
    let declared := (ofData data .declaration ev).append columns
    let ordered := (ofData data .dependency ev).append columns
    ∃ most, IsGreatest {n | ∃ i, ForwardChain (RefersTo columns) i n} most ∧
      (∀ n report, most ≤ n → ordered.recalculate.report = .ok report →
        (∀ m ≤ n, ∃ earlier, (declared.again m).recalculate.report = .ok earlier) →
        SameContents ordered.recalculate.table (declared.again n).recalculate.table ∧
          (declared.again n).recalculate.report =
            .ok { report with schedule := Schedule.declaration.name }) ∧
      (∀ f, ordered.recalculate.report = .error f →
        ∃ v, v.display = .error f ∧ (RawValue data v ∨ ∃ text, ev.engine text = .ok v)) ∧
      ∀ m f, (declared.again m).recalculate.report = .error f →
        ∃ v, v.display = .error f ∧ (RawValue data v ∨ ∃ text, ev.engine text = .ok v) := by
  intro declared ordered
  have hdeclared : declared = (ofData data .declaration ev).append columns := rfl
  have hordered : ordered = (ofData data .dependency ev).append columns := rfl
  have hrefers := refersTo_bindData_new data .dependency ev columns
  have hacyclic' : ∀ i, ¬ TransGen (RefersTo ordered.bindData.columns) i i := by
    rw [hrefers]
    exact hacyclic
  obtain ⟨most, hmost⟩ := exists_most_forward (t := ordered.bindData) rfl hacyclic'
  rw [hrefers] at hmost
  refine ⟨most, hmost, ?_, ?_, ?_⟩
  · intro n report hn hreport hreports
    obtain ⟨report', hreport'⟩ := hreports n (Nat.le_refl n)
    obtain ⟨first, hfirst⟩ := hreports 0 (Nat.zero_le n)
    have hsettled := settled_again hdeclared hordered hacyclic hunbound
      (pass_of_report hreport).1 (n + 1) fun m hm => hreports m (by omega)
    rw [again_succ] at hsettled
    have hwithin : ∀ i, Within (RefersTo ordered.bindData.pass.table.columns) (n + 1) i := by
      intro i m hm
      rw [refersTo_of_shape_eq (sameSheet_pass ordered.bindData).shape, hrefers] at hm
      have := hmost.2 ⟨i, hm⟩
      omega
    obtain ⟨hcontents, hsame⟩ := recalculate_of_settled hdeclared hordered hacyclic
      (fun i hi row hrow => hsettled i hi (hwithin i) row hrow) hreport (pass_of_report hfirst).1
      hreport'
    rw [hreport', hsame]
    exact ⟨hcontents, rfl⟩
  · intro f hr
    exact origin_of_recalculate_error ((kept_ofData data .dependency ev).append columns) hr
  · intro m f hr
    obtain ⟨hkept, -, hdata, -, hev, -⟩ := again_spec data .declaration ev columns m
    have horigin := origin_of_recalculate_error hkept hr
    rw [hdata, hev] at horigin
    exact horigin

/-- Two recalculations by declaration do for one forward reference, also of
a column that has raw data. -/
theorem forward_reference_settles :
    let declared := (ofData (dataOfInts [4, 5]) .declaration echoing).append forwardColumns
    let ordered := (ofData (dataOfInts [4, 5]) .dependency echoing).append forwardColumns
    SameContents ordered.recalculate.table (declared.again 1).recalculate.table ∧
      ∃ report, ordered.recalculate.report = .ok report ∧
        (declared.again 1).recalculate.report = .ok { report with schedule := "declaration" } := by
  intro declared ordered
  have hunbound : ∀ i j, RefersTo forwardColumns i j → i < j →
      (dataOfInts [4, 5]).get? j = none := by
    intro i j h _
    rw [(refersTo_forwardColumns h).2]
    decide
  obtain ⟨most, hmost, hsettles, -, -⟩ := declaration_settles (dataOfInts [4, 5]) echoing
    forwardColumns forwardColumns_acyclic hunbound
  obtain ⟨i, hchain⟩ := hmost.1
  have hdeclared : ∀ m ≤ 1, ∃ earlier, (declared.again m).recalculate.report = .ok earlier := by
    intro m _
    obtain ⟨hkept, -, hdata, -, hev, -⟩ :=
      again_spec (dataOfInts [4, 5]) .declaration echoing forwardColumns m
    exact exists_report_of_echoing hkept hdata hev
  obtain ⟨report, hreport⟩ := exists_report_of_echoing
    ((kept_ofData (dataOfInts [4, 5]) .dependency echoing).append forwardColumns) rfl rfl
  obtain ⟨hcontents, hsame⟩ := hsettles 1 report (le_one_of_forwardColumns hchain) hreport hdeclared
  exact ⟨hcontents, report, hreport, hsame⟩

end Table

end Worksheet
