-- Two tables with the same columns, apart from their rows. They have the
-- same plan. A cell has the same outcome in both when the cells that it reads
-- are the same in both, so runs over the same cells stay side by side.
import Worksheet.Proofs.Table.History

namespace Worksheet

/-- One outcome leaves one thing in a row. -/
theorem Column.Holds.stored_eq {c c' : Column} {row : Int} {result : Outcome}
    (h : c.Holds row result) (h' : c'.Holds row result) : c'.stored row = c.stored row := by
  obtain ⟨text, hd, hr⟩ := h.shown
  obtain ⟨text', hd', hr'⟩ := h'.shown
  rw [hd, Except.ok.injEq] at hd'
  subst hd'
  unfold Column.stored
  rw [hr, hr', h.failure, h'.failure]

namespace Table

theorem Holds.stored_eq {t t' : Table} {i i' : Nat} {row : Int} {result : Outcome}
    (h : t.Holds i row result) (h' : t'.Holds i' row result) :
    t'.stored i' row = t.stored i row := by
  obtain ⟨c, hc, hholds⟩ := h
  obtain ⟨c', hc', hholds'⟩ := h'
  unfold stored
  rw [hc, hc', Option.map_some, Option.map_some, hholds.stored_eq hholds']

/-! ## The plan of a shape -/

theorem calculatedPositions_eq (t : Table) :
    t.calculatedPositions =
      (t.shape.zipIdx.filter fun p => p.1.isCalculated).map Prod.snd := by
  unfold calculatedPositions shape
  rw [List.zipIdx_map, List.filter_map, List.map_map]
  rfl

theorem registrations_eq (t : Table) :
    t.registrations = t.calculatedPositions.filterMap fun i =>
      t.shape[i]?.map fun c => (i, c.reads.filterMap t.position?) := by
  unfold registrations
  apply List.filterMap_congr
  intro i _
  rw [getElem?_shape, Option.map_map]
  rfl

theorem graph_of_shape_eq {t t' : Table} (h : t'.shape = t.shape) : t'.graph = t.graph := by
  have hpos : t'.position? = t.position? := funext (position?_of_shape_eq h)
  rw [graph_eq, graph_eq, registrations_eq, registrations_eq, calculatedPositions_eq,
    calculatedPositions_eq, h, hpos]

theorem plan_of_shape_eq {t t' : Table} (h : t'.shape = t.shape)
    (hs : t'.schedule = t.schedule) : t'.plan = t.plan := by
  unfold plan
  rw [hs, graph_of_shape_eq h, calculatedPositions_eq, calculatedPositions_eq, h]

theorem namesAt_of_shape_eq {t t' : Table} (h : t'.shape = t.shape) (positions : List Nat) :
    t'.namesAt positions = t.namesAt positions := by
  have hname : ∀ (u : Table) (i : Nat),
      u.columns[i]?.map Column.name = u.shape[i]?.map Column.name := by
    intro u i
    rw [getElem?_shape, Option.map_map]
    rfl
  unfold namesAt
  apply List.filterMap_congr
  intro i _
  rw [hname, hname, h]

theorem hasSummaries_bindData (t : Table) :
    t.bindData.hasSummaries = t.shape.any fun c => !decide (c.aggregation = .none) := by
  unfold shape
  rw [List.any_map]
  rfl

theorem rowIndices_of_lastRow_eq {t t' : Table} (h : t'.lastRow = t.lastRow) :
    t'.rowIndices = t.rowIndices := by
  unfold rowIndices
  rw [h]

/-! ## One cell in two tables -/

/-- What is recorded in two columns, or the fault of both: whether an outcome
has a text is no matter of the column. -/
theorem record_congr {t t' : Table} {i : Nat} {c c' : Column} (row : Int) (result : Outcome)
    (hc : t.columns[i]? = some c) (hc' : t'.columns[i]? = some c') :
    (∃ f, c.record row result = .error f ∧ c'.record row result = .error f) ∨
      ∃ d d', c.record row result = .ok d ∧ c'.record row result = .ok d' ∧
        Writes t i row result (t.setColumn i d) ∧ Writes t' i row result (t'.setColumn i d') := by
  cases hd : result.display with
  | error f => exact Or.inl ⟨f, Column.record_eq_error hd c row, Column.record_eq_error hd c' row⟩
  | ok text =>
    obtain ⟨d, hr⟩ := Column.exists_record hd c row
    obtain ⟨d', hr'⟩ := Column.exists_record hd c' row
    exact Or.inr ⟨d, d', hr, hr', writes_of_record hc hr, writes_of_record hc' hr'⟩

/-- Tables in which one outcome was written agree in its cell, and wherever
they agreed before. -/
theorem Writes.agree {t t' u u' : Table} {i j : Nat} {row r : Int} {result : Outcome}
    (hw : Writes t i row result u) (hw' : Writes t' i row result u')
    (h : (j, r) = (i, row) ∨ t'.stored j r = t.stored j r) : u'.stored j r = u.stored j r := by
  by_cases hcell : (j, r) = (i, row)
  · obtain ⟨rfl, rfl⟩ := Prod.mk.inj hcell
    exact hw.holds.stored_eq hw'.holds
  · rw [hw.kept j r hcell, hw'.kept j r hcell]
    exact h.resolve_left hcell

/-- A cell that reads the same in two tables is evaluated to the same
outcome, or stops at the same fault. -/
theorem evaluateCell_congr {t t' : Table} {i : Nat} {row : Int} (hshape : t'.shape = t.shape)
    (hev : t'.evaluator = t.evaluator)
    (hreads : ∀ j, NamesColumn t.columns i j → t'.stored j row = t.stored j row) :
    (∃ f, t.evaluateCell i row = .error f ∧ t'.evaluateCell i row = .error f) ∨
      ∃ u u' failed, t.evaluateCell i row = .ok (u, failed) ∧
        t'.evaluateCell i row = .ok (u', failed) ∧ SameFrame t u ∧ SameFrame t' u' ∧
        ∀ j r, (j, r) = (i, row) ∨ t'.stored j r = t.stored j r →
          u'.stored j r = u.stored j r := by
  unfold evaluateCell
  cases hc : t.columns[i]? with
  | none =>
    have hc' : t'.columns[i]? = none := by
      have hi := congrArg (·[i]?) hshape
      simpa [getElem?_shape, hc] using hi
    rw [hc']
    refine Or.inr ⟨t, t', false, rfl, rfl, .refl t, .refl t', fun j r h => ?_⟩
    rcases h with he | h
    · obtain ⟨rfl, rfl⟩ := Prod.mk.inj he
      unfold stored
      rw [hc, hc']
    · exact h
  | some c =>
    obtain ⟨c', hc', hsame⟩ := exists_of_shape_eq hshape.symm hc
    have hvars := variablesAt_congr (position?_of_shape_eq hshape) hc
      (Column.reads_eq_of_withoutRows hsame) hreads
    rw [hc']
    dsimp only
    rw [hvars]
    cases t.variablesAt row c with
    | error f => exact Or.inl ⟨f, rfl, rfl⟩
    | ok vars =>
      unfold Column.evaluateRow
      rw [hev, Column.expression_eq_of_withoutRows hsame]
      dsimp only
      cases he : t.evaluator.evaluate c.expression vars with
      | error f => exact Or.inl ⟨f, rfl, rfl⟩
      | ok result =>
        rcases record_congr row result hc hc' with ⟨f, hr, hr'⟩ | ⟨d, d', hr, hr', hw, hw'⟩
        · refine Or.inl ⟨f, ?_, ?_⟩
          · simp only [hr, Except.map]
          · simp only [hr', Except.map]
        · refine Or.inr ⟨t.setColumn i d, t'.setColumn i d', !result.isOk, ?_, ?_, hw.frame,
            hw'.frame, fun j r h => hw.agree hw' h⟩
          · simp only [hr, Except.map]
          · simp only [hr', Except.map]

/-- Cells that both agree with what they read keep the same, when they read
the same. -/
theorem FromReferences.stored_eq {t t' : Table} {i : Nat} {row : Int}
    (h : t.FromReferences i row) (h' : t'.FromReferences i row)
    (hev : t'.evaluator = t.evaluator) (hpos : ∀ name, t'.position? name = t.position? name)
    (hexpr : ∀ c c', t.columns[i]? = some c → t'.columns[i]? = some c' →
      c'.expression = c.expression)
    (hreads : ∀ j, NamesColumn t.columns i j → t'.stored j row = t.stored j row) :
    t'.stored i row = t.stored i row := by
  obtain ⟨c, vars, result, hc, hvars, heval, hholds⟩ := h
  obtain ⟨c', vars', result', hc', hvars', heval', hholds'⟩ := h'
  have he := hexpr c c' hc hc'
  have hsame : c'.reads = c.reads := by
    unfold Column.reads
    rw [he]
  rw [variablesAt_congr hpos hc hsame hreads, hvars, Except.ok.injEq] at hvars'
  subst hvars'
  rw [hev, he, heval, Except.ok.injEq] at heval'
  subst heval'
  exact hholds.stored_eq hholds'

/-! ## Two runs -/

/-- Two runs over the same cells, side by side: they stop at the same fault
or not at all, count the same failures, and then agree in the cells of the
run and wherever they agreed before. -/
structure Alongside (start start' : Table) (cells : List (Nat × Int)) (p p' : Progress) :
    Prop where
  frame : SameFrame start p.table
  frame' : SameFrame start' p'.table
  fault : p'.fault? = p.fault?
  failed : p'.failed = p.failed
  agree : p.fault? = none → ∀ i row,
    (i, row) ∈ cells ∨ start'.stored i row = start.stored i row →
      p'.table.stored i row = p.table.stored i row

/-- Runs over the same cells stay side by side, when each cell reads only
earlier cells and cells that are the same at the start. -/
theorem alongside_foldl_step {t t' : Table} (failed : Nat) (cells : List (Nat × Int))
    (hshape : t'.shape = t.shape) (hev : t'.evaluator = t.evaluator)
    (hreads : ∀ before cell after, cells = before ++ cell :: after →
      ∀ j, NamesColumn t.columns cell.1 j →
        (j, cell.2) ∈ before ∨ t'.stored j cell.2 = t.stored j cell.2) :
    Alongside t t' cells (cells.foldl Progress.step ⟨t, failed, none⟩)
      (cells.foldl Progress.step ⟨t', failed, none⟩) := by
  induction cells using List.reverseRecOn with
  | nil => exact ⟨.refl t, .refl t', rfl, rfl, fun _ i row h => by simpa using h⟩
  | append_singleton cells cell ih =>
    have hrun := ih fun before c after he => hreads before c (after ++ [cell]) (by simp [he])
    simp only [List.foldl_append, List.foldl_cons, List.foldl_nil]
    generalize cells.foldl Progress.step ⟨t, failed, none⟩ = p at *
    generalize cells.foldl Progress.step ⟨t', failed, none⟩ = p' at *
    unfold Progress.step
    rw [hrun.fault]
    cases hfault : p.fault? with
    | some f =>
      exact ⟨hrun.frame, hrun.frame', hrun.fault, hrun.failed,
        fun hnone => by simp [hfault] at hnone⟩
    | none =>
      have hcell : ∀ j, NamesColumn p.table.columns cell.1 j →
          p'.table.stored j cell.2 = p.table.stored j cell.2 := fun j hj =>
        hrun.agree hfault j cell.2
          (hreads cells cell [] rfl j (namesColumn_of_shape_eq hrun.frame.shape hj))
      have hshape' : p'.table.shape = p.table.shape := by
        rw [hrun.frame.shape, hrun.frame'.shape, hshape]
      have hev' : p'.table.evaluator = p.table.evaluator := by
        rw [hrun.frame.evaluator, hrun.frame'.evaluator, hev]
      rcases evaluateCell_congr hshape' hev' hcell with
        ⟨f, he, he'⟩ | ⟨u, u', b, he, he', hframe, hframe', hagree⟩
      · rw [he, he']
        exact ⟨hrun.frame, hrun.frame', rfl, hrun.failed, fun hnone => by simp at hnone⟩
      · rw [he, he']
        refine ⟨hrun.frame.trans hframe, hrun.frame'.trans hframe', rfl, ?_,
          fun _ i row h => hagree i row ?_⟩
        · simp only [hrun.failed]
        · rw [List.mem_append, List.mem_singleton] at h
          rcases h with (hmem | he) | hstart
          · exact Or.inr (hrun.agree hfault i row (Or.inl hmem))
          · exact Or.inl he
          · exact Or.inr (hrun.agree hfault i row (Or.inr hstart))

end Table

end Worksheet
