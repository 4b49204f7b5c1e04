-- Summaries after a recalculation. A column that evaluates to numbers only has
-- a summary, and this fails exactly if one of the cells does: the word of a
-- failed cell is no number, and the text of every number is read as one.
import Worksheet.Proofs.Summary.Displayed
import Worksheet.Proofs.Table.Extent
import Worksheet.Proofs.Table.FailedReads

namespace Worksheet

/-! ## Rows that are no numbers -/

/-- Where a cell failed or has a number, its row is no number exactly if it
failed. -/
theorem Column.Holds.unread_iff {c : Column} {row : Int} {o : Outcome} (h : c.Holds row o)
    (ho : (∃ f, o = .failure f) ∨ ∃ n, o = .value (.ofNumber n)) {v : Value}
    (hv : c.rows.get? row = some v) :
    v.rowDouble? = none ↔ ∃ f, c.outcomeAt row = .ok (.failure f) := by
  obtain ⟨text, hd, hr⟩ := h.shown
  rw [hv, Option.some.injEq] at hr
  subst hr
  rcases ho with ⟨f, rfl⟩ | ⟨n, rfl⟩
  · cases hd
    exact iff_of_true rowDouble?_failedText ⟨f, h.outcomeAt_failure⟩
  · obtain ⟨text', y, hd', hread, -⟩ := rowDouble?_display_number n
    obtain rfl : text = text' := Except.ok.inj (hd.symm.trans hd')
    obtain ⟨_, -, hvalue⟩ := h.outcomeAt_value
    rw [hread, hvalue]
    exact iff_of_false (by simp) (by simp)

namespace Table

/-! ## What a cell is evaluated to -/

/-- What the expression of a cell gives with what the columns show. -/
def result (t : Table) (i : Nat) (row : Int) : Except Fault Outcome :=
  match t.columns[i]? with
  | none => .error .outOfRange
  | some c =>
    match t.variablesAt row c with
    | .error f => .error f
    | .ok vars => t.evaluator.evaluate c.expression vars

/-- In a recalculation the cell is evaluated, in its turn, to the outcome. -/
def EvaluatesTo (t : Table) (i : Nat) (row : Int) (o : Outcome) : Prop :=
  ∃ u, t.EvaluatedIn i row u ∧ u.result i row = .ok o

theorem result_eq {t : Table} {i : Nat} {row : Int} {c : Column} {vars : Variables} {o : Outcome}
    (hc : t.columns[i]? = some c) (hvars : t.variablesAt row c = .ok vars)
    (heval : t.evaluator.evaluate c.expression vars = .ok o) : t.result i row = .ok o := by
  unfold result
  simp only [hc, hvars, heval]

/-- A run without a fault has none on the way. -/
theorem fault?_eq_none_of_append {p : Progress} {cells cells' : List (Nat × Int)}
    (hdone : ((cells ++ cells').foldl Progress.step p).fault? = none) :
    (cells.foldl Progress.step p).fault? = none := by
  induction cells' using List.reverseRecOn with
  | nil => simpa using hdone
  | append_singleton cells' cell ih =>
    rw [← List.append_assoc, List.foldl_append, List.foldl_cons, List.foldl_nil] at hdone
    exact ih (step_fault?_eq_none hdone).1

/-- In a recalculation to its end, each cell of the order has its turn. -/
theorem exists_evaluatedIn {t : Table} (hdone : t.bindData.pass.fault? = none) {i : Nat}
    {row : Int} (hmem : (i, row) ∈ t.bindData.cellsToDo) : ∃ u, t.EvaluatedIn i row u := by
  obtain ⟨before, after, hsplit⟩ := List.append_of_mem hmem
  have hcells : t.bindData.cellsToDo = before ++ [(i, row)] ++ after := by simp [hsplit]
  unfold pass at hdone
  rw [hcells] at hdone
  have hturn := fault?_eq_none_of_append hdone
  rw [List.foldl_append, List.foldl_cons, List.foldl_nil] at hturn
  obtain ⟨hbefore, failed, hcell⟩ := step_fault?_eq_none hturn
  exact ⟨_, before, after, _, hsplit, hbefore, rfl, hcell⟩

/-- In a recalculation to its end, each cell of a calculated column is left
with the outcome that it was evaluated to, or with a failure. -/
theorem exists_outcome {t : Table} (hdone : t.bindData.pass.fault? = none) {i : Nat} {row : Int}
    (hi : i ∈ t.bindData.calculatedPositions) (hrow : row ∈ t.bindData.rowIndices) :
    ∃ o, t.recalculate.table.Holds i row o ∧ ((∃ f, o = .failure f) ∨ t.EvaluatesTo i row o) := by
  obtain ⟨c, hc, -⟩ := (mem_calculatedPositions _ i).mp hi
  rcases List.mem_append.mp (t.bindData.plan_perm.mem_iff.mpr hi) with hb | ho
  · obtain ⟨⟨report?, htable⟩, -⟩ := t.recalculate_eq
    refine ⟨_, ?_, Or.inl ⟨cycleFailure c, rfl⟩⟩
    rw [htable]
    exact holds_pass_of_blocked hb hc hrow
  · have hmem := (mem_cellsOf t.bindData t.bindData.plan.order i row).mpr ⟨ho, hrow⟩
    obtain ⟨u, hturn⟩ := exists_evaluatedIn hdone hmem
    obtain ⟨d, hd, -⟩ := exists_of_shape_eq hturn.frame.shape.symm hc
    obtain ⟨vars, o, hvars, heval, hholds⟩ := hturn.holds_recalculate hd
    exact ⟨o, hholds, Or.inr ⟨u, hturn, result_eq hd hvars heval⟩⟩

/-! ## Columns of numbers -/

section

variable {t : Table} {i : Nat} {c : Column} {report : Report}

/-- A row of a column of numbers is no number exactly if its cell failed. -/
theorem unread_row_iff (hreport : t.recalculate.report = .ok report)
    (hc : t.recalculate.table.columns[i]? = some c) (hcalc : c.isCalculated = true)
    (hnumbers : ∀ row v, t.EvaluatesTo i row (.value v) → ∃ n, v = .ofNumber n) {row : Int}
    (hlow : 0 ≤ row) (hhigh : row ≤ t.recalculate.table.lastRow) {v : Value}
    (hv : c.rows.get? row = some v) :
    v.rowDouble? = none ↔ ∃ f, c.outcomeAt row = .ok (.failure f) := by
  have hframe := t.frame_recalculate
  have hi := mem_calculatedPositions_of_shape_eq hframe.shape hc hcalc
  have hrow : row ∈ t.bindData.rowIndices := by
    rw [mem_rowIndices, ← hframe.lastRow]
    exact ⟨hlow, hhigh⟩
  obtain ⟨o, ⟨d, hd, hholds⟩, ho⟩ := exists_outcome (pass_of_report hreport).1 hi hrow
  obtain rfl : c = d := Option.some.inj (hc.symm.trans hd)
  refine hholds.unread_iff ?_ hv
  rcases ho with hfailure | heval
  · exact Or.inl hfailure
  · cases o with
    | failure f => exact Or.inl ⟨f, rfl⟩
    | value w =>
      obtain ⟨n, rfl⟩ := hnumbers row w heval
      exact Or.inr ⟨n, rfl⟩

/-- Some row of a column of numbers is no number exactly if a cell failed. -/
theorem unread_iff_failed (hkept : Kept t) (hreport : t.recalculate.report = .ok report)
    (hc : t.recalculate.table.columns[i]? = some c) (hcalc : c.isCalculated = true)
    (hnumbers : ∀ row v, t.EvaluatesTo i row (.value v) → ∃ n, v = .ofNumber n) :
    (∃ v ∈ c.rows.values, v.rowDouble? = none) ↔
      ∃ row : Int, 0 ≤ row ∧ row ≤ t.recalculate.table.lastRow ∧
        ∃ f, t.recalculate.table.outcome row i = .ok (.failure f) := by
  obtain ⟨hkeys, -⟩ := filledDown_recalculate hkept hreport hc hcalc
  simp only [outcome_eq hc]
  constructor
  · rintro ⟨v, hmem, hnone⟩
    obtain ⟨row, hv⟩ := (OrderedMap.mem_values_iff _ v).mp hmem
    obtain ⟨hlow, hhigh⟩ := (hkeys row).mp ((OrderedMap.mem_keys_iff _ row).mpr ⟨v, hv⟩)
    exact ⟨row, hlow, hhigh, (unread_row_iff hreport hc hcalc hnumbers hlow hhigh hv).mp hnone⟩
  · rintro ⟨row, hlow, hhigh, hfailure⟩
    obtain ⟨v, hv⟩ := (OrderedMap.mem_keys_iff _ row).mp ((hkeys row).mpr ⟨hlow, hhigh⟩)
    refine ⟨v, (OrderedMap.mem_values_iff _ v).mpr ⟨row, hv⟩, ?_⟩
    exact (unread_row_iff hreport hc hcalc hnumbers hlow hhigh hv).mpr hfailure

end

/-! ## The law -/

/-- After a recalculation to its end, the summary of a calculated column that
has one fails if and only if a cell of the column fails, provided that the
cells that do not fail were evaluated to integers and doubles. Otherwise it
shows a number. -/
theorem summary_tells_failures [Reductions] (data : RawData) (schedule : Schedule)
    (ev : Evaluator) (changes : List Change) (i : Nat) (c : Column) (report : Report) :
    let t := (ofData data schedule ev).after changes
    t.recalculate.report = .ok report → t.recalculate.table.columns[i]? = some c →
    c.isCalculated = true → c.aggregation ≠ .none →
    (∀ row v, t.EvaluatesTo i row (.value v) → ∃ n, v = .ofNumber n) →
    ∃ s, t.recalculate.table.summary i = .ok s ∧
      (s.failure? = some .aggregationFailed ↔
        ∃ row : Int, 0 ≤ row ∧ row ≤ t.recalculate.table.lastRow ∧
          ∃ f, t.recalculate.table.outcome row i = .ok (.failure f)) ∧
      (s.failure? ≠ some .aggregationFailed →
        s.failure? = none ∧ ∃ x : Double, s.value = x.cellText) := by
  intro t hreport hc hcalc haggregation hnumbers
  obtain ⟨hkept, -⟩ := after_spec data schedule ev changes
  refine ⟨c.summary, ?_, ?_⟩
  · unfold summary
    rw [column_eq hc]
    rfl
  · rw [← unread_iff_failed hkept hreport hc hcalc hnumbers]
    unfold Column.summary
    by_cases hfail : ∃ v ∈ c.rows.values, v.rowDouble? = none
    · rw [Aggregation.summarise_of_unread haggregation hfail]
      exact ⟨iff_of_true rfl hfail, fun hne => absurd rfl hne⟩
    · obtain ⟨x, hx⟩ := Aggregation.summarise_of_read haggregation hfail
      rw [hx]
      exact ⟨iff_of_false (by simp) hfail, fun _ => ⟨rfl, x, rfl⟩⟩

/-- Two rows, with a zero in the second. -/
def fourAndZero : RawData :=
  OrderedMap.ofList [(0, OrderedMap.ofList [(0, .int 4), (1, .int 0)])]

/-- A column that shows them, and one that divides by them and is summed
up. -/
def quotientColumns : List Column :=
  [.ofParts "A" .data "A" "" .none, .ofParts "B" .calculated "B" "2 / #A#" .sum]

def quotientTable : Table :=
  (ofData fourAndZero .dependency .builtIn).after [.append quotientColumns]

/-- The quotients are doubles, where there is one. -/
theorem evaluatesTo_quotient {row : Int} {v : Value}
    (h : quotientTable.EvaluatesTo 1 row (.value v)) : ∃ n, v = .ofNumber n := by
  obtain ⟨u, ⟨before, after, result, hsplit, -, rfl, -⟩, ho⟩ := h
  have hcells : quotientTable.bindData.cellsToDo = [(1, 0), (1, 1)] := by decide +kernel
  rw [hcells] at hsplit
  match before, hsplit with
  | [], hsplit =>
    obtain ⟨h, -⟩ := List.cons.inj hsplit
    obtain rfl : 0 = row := (Prod.mk.inj h).2
    have hvalue : (quotientTable.bindData.turns []).table.result 1 0 =
        .ok (.value (.double (Double.ofRat (1 / 2)))) := by decide +kernel
    cases hvalue.symm.trans ho
    exact ⟨.double _, rfl⟩
  | [cell], hsplit =>
    simp only [List.cons_append, List.nil_append, List.cons.injEq, Prod.mk.injEq] at hsplit
    obtain ⟨rfl, ⟨-, rfl⟩, -⟩ := hsplit
    have hfailure : (quotientTable.bindData.turns [(1, 0)]).table.result 1 1 =
        .ok (.failure ⟨.evaluationFailed, "Division by zero"⟩) := by decide +kernel
    cases hfailure.symm.trans ho
  | _ :: _ :: _, hsplit => simp at hsplit

section

attribute [local instance] Reductions.fromLeft

theorem sum_over_division_by_zero :
    ∃ s, quotientTable.recalculate.table.summary (1 : Nat) = .ok s ∧
      s.failure? = some .aggregationFailed := by
  have hreport : quotientTable.recalculate.report = .ok ⟨1, 2, 1, [], "dependency"⟩ := by
    decide +kernel
  have hcolumn : quotientTable.recalculate.table.columns[1]?.map
      (fun c => (c.isCalculated, c.aggregation)) = some (true, .sum) := by decide +kernel
  have hfailure : quotientTable.recalculate.table.outcome 1 (1 : Nat) =
      .ok (.failure ⟨.evaluationFailed, "Division by zero"⟩) := by decide +kernel
  have hlast : (1 : Int) ≤ quotientTable.recalculate.table.lastRow := by decide +kernel
  have hnumbers : ∀ row v, quotientTable.EvaluatesTo 1 row (.value v) → ∃ n, v = .ofNumber n :=
    fun _ _ => evaluatesTo_quotient
  have law := summary_tells_failures fourAndZero .dependency .builtIn [.append quotientColumns] 1
  rw [show (ofData fourAndZero .dependency .builtIn).after [.append quotientColumns] =
    quotientTable from rfl] at law
  generalize quotientTable = t at *
  obtain ⟨c, hc, hkind⟩ := Option.map_eq_some_iff.mp hcolumn
  obtain ⟨hcalc, hsum⟩ := Prod.mk.inj hkind
  obtain ⟨s, hs, hiff, -⟩ := law c _ hreport hc hcalc (by rw [hsum]; decide) hnumbers
  exact ⟨s, hs, hiff.mpr ⟨1, by decide, hlast, _, hfailure⟩⟩

end

end Table

end Worksheet
