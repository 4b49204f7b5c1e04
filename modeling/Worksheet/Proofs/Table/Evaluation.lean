-- The pass over the cells. Each turn evaluates one cell from what the other
-- columns show at that time. When no cell reads what a later turn writes,
-- every cell still agrees at the end with what the columns show then.
import Worksheet.Proofs.Table.Cells

namespace Worksheet.Table

/-! ## Cells that agree with what they read -/

/-- The cell holds what its expression gives, with the variables that the
table has for it. -/
def FromReferences (t : Table) (i : Nat) (row : Int) : Prop :=
  ∃ c vars result, t.columns[i]? = some c ∧ t.variablesAt row c = .ok vars ∧
    t.evaluator.evaluate c.expression vars = .ok result ∧ t.Holds i row result

/-- A name in the expression of the column at `i` stands for the column at
`j`, calculated or not. -/
def NamesColumn (columns : List Column) (i j : Nat) : Prop :=
  ∃ c name, columns[i]? = some c ∧ name ∈ c.reads ∧ StandsFor columns name j

theorem namesColumn_of_shape_eq {t t' : Table} (h : t.shape = t'.shape) {i j : Nat}
    (hn : NamesColumn t.columns i j) : NamesColumn t'.columns i j := by
  obtain ⟨c, name, hc, hread, hs⟩ := hn
  obtain ⟨c', hc', hsame⟩ := exists_of_shape_eq h hc
  refine ⟨c', name, hc', ?_, standsFor_of_shape_eq h hs⟩
  rw [Column.reads_eq_of_withoutRows hsame]
  exact hread

/-! ## What names show -/

/-- The column that a name stands for. -/
def named (t : Table) (name : String) : Option Column :=
  (t.position? name).bind fun i => t.columns[i]?

/-- What the column of a name keeps for a row. -/
def storedAs (t : Table) (name : String) (row : Int) : Option (Option Value × Option Failure) :=
  (t.named name).map fun c => c.stored row

theorem named_of_position {t : Table} {name : String} {i : Nat} (h : t.position? name = some i) :
    t.named name = t.columns[i]? := by
  unfold named
  rw [h, Option.bind_some]

theorem storedAs_of_position {t : Table} {name : String} {i : Nat}
    (h : t.position? name = some i) (row : Int) : t.storedAs name row = t.stored i row := by
  unfold storedAs stored
  rw [named_of_position h]

/-- What names show is a matter of the columns that they stand for, wherever
these stand. -/
theorem readNames_of_storedAs {t t' : Table} (row : Int) (names : List String)
    (h : ∀ name ∈ names, t'.storedAs name row = t.storedAs name row) :
    t'.readNames row names = t.readNames row names := by
  induction names with
  | nil => rfl
  | cons name rest ih =>
    have hrest := ih fun n hn => h n (List.mem_cons_of_mem _ hn)
    have hname := h name (by simp)
    unfold storedAs named at hname
    unfold readNames
    rw [hrest]
    cases hc : (t.position? name).bind fun i => t.columns[i]? with
    | none =>
      rw [hc, Option.map_none, Option.map_eq_none_iff] at hname
      rw [hname]
    | some c =>
      rw [hc, Option.map_some, Option.map_eq_some_iff] at hname
      obtain ⟨c', hc', hsame⟩ := hname
      rw [hc']
      dsimp only
      rw [Column.textAt_of_stored hsame]

/-- What names show is a matter of the columns that they stand for. -/
theorem readNames_congr {t t' : Table} (hpos : ∀ name, t'.position? name = t.position? name)
    (row : Int) (names : List String)
    (hs : ∀ name ∈ names, ∀ j, StandsFor t.columns name j → t'.stored j row = t.stored j row) :
    t'.readNames row names = t.readNames row names := by
  refine readNames_of_storedAs row names fun name hname => ?_
  cases hp : t.position? name with
  | none =>
    unfold storedAs named
    rw [hpos, hp]
    rfl
  | some j =>
    rw [storedAs_of_position hp, storedAs_of_position ((hpos name).trans hp)]
    exact hs name hname j ((position?_eq_some_iff t name j).mp hp)

/-- Two columns with the same names to read have the same variables, in
tables that keep the same in the cells of these names. -/
theorem variablesAt_congr {t t' : Table} {c c' : Column} {i : Nat} {row : Int}
    (hpos : ∀ name, t'.position? name = t.position? name) (hc : t.columns[i]? = some c)
    (hreads : c'.reads = c.reads)
    (hs : ∀ j, NamesColumn t.columns i j → t'.stored j row = t.stored j row) :
    t'.variablesAt row c' = t.variablesAt row c := by
  unfold variablesAt
  rw [hreads]
  exact congrArg _ (readNames_congr hpos row _ fun name hname j hj => hs j ⟨c, name, hc, hname, hj⟩)

/-- The variables of a cell are a matter of the cells that it reads. -/
theorem variablesAt_of_writes {t t' : Table} {i j : Nat} {r row : Int} {result : Outcome}
    {c c' : Column} (hw : Writes t i row result t') (hc : t.columns[j]? = some c)
    (hsame : c'.withoutRows = c.withoutRows) (hfree : ¬ NamesColumn t.columns j i) :
    t'.variablesAt r c' = t.variablesAt r c := by
  refine variablesAt_congr (position?_of_shape_eq hw.frame.shape) hc
    (Column.reads_eq_of_withoutRows hsame) fun k hk => hw.kept k r fun he => ?_
  rw [(Prod.mk.inj he).1] at hk
  exact hfree hk

/-- A write leaves a cell in agreement, unless it is the cell itself or a
cell that it reads. -/
theorem FromReferences.of_writes {t t' : Table} {i j : Nat} {r row : Int} {result : Outcome}
    (h : t.FromReferences j r) (hw : Writes t i row result t') (hne : (j, r) ≠ (i, row))
    (hfree : ¬ NamesColumn t.columns j i) : t'.FromReferences j r := by
  obtain ⟨c, vars, res, hc, hvars, heval, hholds⟩ := h
  obtain ⟨c', hc', hsame⟩ := exists_of_shape_eq hw.frame.shape.symm hc
  refine ⟨c', vars, res, hc', ?_, ?_, hholds.of_stored (hw.kept j r hne)⟩
  · rw [variablesAt_of_writes hw hc hsame hfree]
    exact hvars
  · rw [hw.frame.evaluator, Column.expression_eq_of_withoutRows hsame]
    exact heval

/-- A cell that was just evaluated agrees with what it reads, when it does
not read itself. -/
theorem fromReferences_of_evaluateCell {t t' : Table} {i : Nat} {row : Int} {failed : Bool}
    {c : Column} (hc : t.columns[i]? = some c) (h : t.evaluateCell i row = .ok (t', failed))
    (hself : ¬ NamesColumn t.columns i i) :
    ∃ result, Writes t i row result t' ∧ t'.FromReferences i row := by
  obtain ⟨vars, result, hvars, heval, -, hw⟩ := evaluateCell_spec h hc
  obtain ⟨c', hc', hsame⟩ := exists_of_shape_eq hw.frame.shape.symm hc
  refine ⟨result, hw, c', vars, result, hc', ?_, ?_, hw.holds⟩
  · rw [variablesAt_of_writes hw hc hsame hself]
    exact hvars
  · rw [hw.frame.evaluator, Column.expression_eq_of_withoutRows hsame]
    exact heval

/-! ## The turns -/

/-- What one turn does: nothing after a fault; else it evaluates its cell,
and ends with a fault or with the next table. -/
theorem step_cases (p : Progress) (cell : Nat × Int) :
    (∃ f, p.fault? = some f ∧ p.step cell = p) ∨
      (∃ f, p.table.evaluateCell cell.1 cell.2 = .error f ∧
        p.step cell = { p with fault? := some f }) ∨
      ∃ t failed, p.fault? = none ∧ p.table.evaluateCell cell.1 cell.2 = .ok (t, failed) ∧
        p.step cell = ⟨t, if failed then p.failed + 1 else p.failed, none⟩ := by
  unfold Progress.step
  cases hp : p.fault? with
  | some f => exact Or.inl ⟨f, rfl, rfl⟩
  | none =>
    refine Or.inr ?_
    cases he : p.table.evaluateCell cell.1 cell.2 with
    | error f => exact Or.inl ⟨f, rfl, rfl⟩
    | ok r => exact Or.inr ⟨r.1, r.2, rfl, rfl, rfl⟩

theorem step_of_evaluateCell {p : Progress} {cell : Nat × Int} {t : Table} {failed : Bool}
    (hp : p.fault? = none) (he : p.table.evaluateCell cell.1 cell.2 = .ok (t, failed)) :
    p.step cell = ⟨t, if failed then p.failed + 1 else p.failed, none⟩ := by
  unfold Progress.step
  simp only [hp, he]

/-- A turn without a fault follows turns without a fault, and evaluates its
cell. -/
theorem step_fault?_eq_none {p : Progress} {cell : Nat × Int} (h : (p.step cell).fault? = none) :
    p.fault? = none ∧
      ∃ failed, p.table.evaluateCell cell.1 cell.2 = .ok ((p.step cell).table, failed) := by
  rcases step_cases p cell with ⟨f, hp, hs⟩ | ⟨f, -, hs⟩ | ⟨t, failed, hp, he, hs⟩
  · rw [hs, hp] at h
    cases h
  · rw [hs] at h
    cases h
  · rw [hs]
    exact ⟨hp, failed, he⟩

/-- The table after some cells were evaluated: these agree with what they
read, and all others are as they were. -/
structure Filled (start : Table) (cells : List (Nat × Int)) (t : Table) : Prop where
  frame : SameFrame start t
  written : ∀ cell ∈ cells, t.FromReferences cell.1 cell.2
  kept : ∀ j r, (j, r) ∉ cells → t.stored j r = start.stored j r

/-- A pass over distinct cells, none of which reads its own column or the
column of a later cell, leaves all of them in agreement. -/
theorem filled_foldl_step {p : Progress} (cells : List (Nat × Int))
    (hcolumn : ∀ cell ∈ cells, ∃ c, p.table.columns[cell.1]? = some c) (hnodup : cells.Nodup)
    (hself : ∀ cell ∈ cells, ¬ NamesColumn p.table.columns cell.1 cell.1)
    (hlater : cells.Pairwise fun a b => ¬ NamesColumn p.table.columns a.1 b.1)
    (hdone : (cells.foldl Progress.step p).fault? = none) :
    Filled p.table cells (cells.foldl Progress.step p).table := by
  induction cells using List.reverseRecOn with
  | nil => exact ⟨SameFrame.refl _, by simp, fun _ _ _ => rfl⟩
  | append_singleton cells cell ih =>
    obtain ⟨i, row⟩ := cell
    rw [List.foldl_append, List.foldl_cons, List.foldl_nil] at hdone ⊢
    obtain ⟨hbefore, failed, hcell⟩ := step_fault?_eq_none hdone
    rw [List.nodup_append] at hnodup
    rw [List.pairwise_append] at hlater
    have hf := ih (fun c hc => hcolumn c (List.mem_append_left _ hc)) hnodup.1
      (fun c hc => hself c (List.mem_append_left _ hc)) hlater.1 hbefore
    generalize cells.foldl Progress.step p = q at *
    -- the columns of the table so far are the same, so they read the same
    have hback : ∀ {a b : Nat}, NamesColumn q.table.columns a b →
        NamesColumn p.table.columns a b := namesColumn_of_shape_eq hf.frame.shape
    obtain ⟨c, hc⟩ := hcolumn (i, row) (by simp)
    obtain ⟨c', hc', -⟩ := exists_of_shape_eq hf.frame.shape.symm hc
    obtain ⟨result, hw, hnew⟩ := fromReferences_of_evaluateCell hc' hcell
      fun h => hself (i, row) (by simp) (hback h)
    refine ⟨hf.frame.trans hw.frame, ?_, ?_⟩
    · rintro ⟨j, r⟩ hmem
      rw [List.mem_append, List.mem_singleton] at hmem
      rcases hmem with hmem | he
      · apply (hf.written _ hmem).of_writes hw
        · exact hnodup.2.2 _ hmem (i, row) (by simp)
        · exact fun h => hlater.2.2 _ hmem (i, row) (by simp) (hback h)
      · obtain ⟨rfl, rfl⟩ := Prod.mk.inj he
        exact hnew
    · intro j r hmem
      rw [List.mem_append, List.mem_singleton, not_or] at hmem
      exact (hw.kept j r hmem.2).trans (hf.kept j r hmem.1)

/-! ## The columns that fail -/

/-- Failing columns one after the other fails the cells of just these, each
with the failure that its name gives. -/
theorem foldl_failColumn_spec (t : Table) (l : List Nat)
    (hl : ∀ i ∈ l, ∃ c, t.columns[i]? = some c) :
    SameFrame t (l.foldl failColumn t) ∧
      (∀ i ∈ l, ∀ c, t.columns[i]? = some c → ∀ row ∈ t.rowIndices,
        (l.foldl failColumn t).Holds i row (.failure (cycleFailure c))) ∧
      ∀ j r, ¬ (j ∈ l ∧ r ∈ t.rowIndices) →
        (l.foldl failColumn t).stored j r = t.stored j r := by
  induction l using List.reverseRecOn with
  | nil => exact ⟨SameFrame.refl _, by simp, fun _ _ _ => rfl⟩
  | append_singleton l i ih =>
    obtain ⟨hframe, hholds, hkept⟩ := ih fun j hj => hl j (List.mem_append_left _ hj)
    rw [List.foldl_append, List.foldl_cons, List.foldl_nil]
    generalize l.foldl failColumn t = u at *
    have hrows : u.rowIndices = t.rowIndices := by
      unfold rowIndices
      rw [hframe.lastRow]
    obtain ⟨c, hc⟩ := hl i (by simp)
    obtain ⟨d, hd, hsame⟩ := exists_of_shape_eq hframe.shape.symm hc
    obtain ⟨hframe', hholds', hkept'⟩ := failColumn_spec hd
    rw [cycleFailure_of_withoutRows hsame, hrows] at hholds'
    rw [hrows] at hkept'
    refine ⟨hframe.trans hframe', fun j hj e he row hrow => ?_, fun j r hjr => ?_⟩
    · by_cases hji : j = i
      · subst hji
        rw [hc, Option.some.injEq] at he
        exact he ▸ hholds' row hrow
      · have hmem : j ∈ l := by simpa [hji] using hj
        exact (hholds j hmem e he row hrow).of_stored (hkept' j row fun h => hji h.1)
    · rw [List.mem_append, List.mem_singleton] at hjr
      rw [hkept' j r fun h => hjr ⟨Or.inr h.1, h.2⟩, hkept j r fun h => hjr ⟨Or.inl h.1, h.2⟩]

end Worksheet.Table
