-- Cells of a table and what writes them. A cell holds what it shows and,
-- beside it, its failure. One write changes one cell, and leaves the columns
-- as they are apart from their rows.
import Worksheet.Proofs.Table.Names

namespace Worksheet

/-! ## Rows of a column -/

/-- The failure of an outcome that failed. -/
def Outcome.failure? : Outcome → Option Failure
  | .value _ => none
  | .failure f => some f

/-- The failure for a cycle tells the name of the column. -/
theorem Table.cycleFailure_of_withoutRows {c c' : Column} (h : c'.withoutRows = c.withoutRows) :
    Table.cycleFailure c' = Table.cycleFailure c := by
  unfold Table.cycleFailure
  rw [Column.name_eq_of_withoutRows h]

namespace Column

/-! ## The outcome of a row -/

theorem outcomeAt_eq_failure {c : Column} {row : Int} {f : Failure}
    (h : c.failures.get? row = some f) : c.outcomeAt row = .ok (.failure f) := by
  unfold outcomeAt
  rw [h]

theorem outcomeAt_eq_value {c : Column} {row : Int} {v : Value}
    (h : c.failures.get? row = none) (hv : c.rows.get? row = some v) :
    c.outcomeAt row = .ok (.value v) := by
  unfold outcomeAt
  rw [h, hv]

/-- The failure of a row that is not set says so, if the number of the row does
not have too many digits to be told. -/
theorem unsetFailure_eq (row : Int) :
    unsetFailure row =
      if row.natAbs < digitBound then
        .ok ⟨.emptyResult, "Row " ++ intDigits row ++ " is unset"⟩
      else .error (.tooManyDigits none) := by
  unfold unsetFailure intText
  by_cases h : row.natAbs < digitBound
  · rw [if_pos h, if_neg (Nat.not_le.mpr h)]
    rfl
  · rw [if_neg h, if_pos (Nat.not_lt.mp h)]
    rfl

theorem outcomeAt_eq_unset {c : Column} {row : Int} (h : c.failures.get? row = none)
    (hv : c.rows.get? row = none) :
    c.outcomeAt row =
      if row.natAbs < digitBound then
        .ok (.failure ⟨.emptyResult, "Row " ++ intDigits row ++ " is unset"⟩)
      else .error (.tooManyDigits none) := by
  unfold outcomeAt
  rw [h, hv]
  dsimp only
  rw [unsetFailure_eq]
  split
  · rfl
  · rfl

/-! ## Rows that hold an outcome -/

/-- What a column keeps for a row: the value, and the failure. -/
def stored (c : Column) (row : Int) : Option Value × Option Failure :=
  (c.rows.get? row, c.failures.get? row)

/-- The row holds an outcome: the text that it shows, and its failure. -/
structure Holds (c : Column) (row : Int) (result : Outcome) : Prop where
  shown : ∃ text, result.display = .ok text ∧ c.rows.get? row = some (.text text)
  failure : c.failures.get? row = result.failure?

theorem Holds.of_stored {c c' : Column} {row : Int} {result : Outcome} (h : c.Holds row result)
    (hs : c'.stored row = c.stored row) : c'.Holds row result := by
  obtain ⟨hrows, hfailures⟩ := Prod.mk.inj hs
  exact ⟨hrows ▸ h.shown, hfailures ▸ h.failure⟩

theorem Holds.textAt {c : Column} {row : Int} {result : Outcome} (h : c.Holds row result) :
    ∃ text, result.display = .ok text ∧ c.textAt row = .ok text := by
  obtain ⟨text, hd, hr⟩ := h.shown
  refine ⟨text, hd, ?_⟩
  unfold Column.textAt
  rw [hr]
  rfl

theorem Holds.outcomeAt_failure {c : Column} {row : Int} {f : Failure}
    (h : c.Holds row (.failure f)) : c.outcomeAt row = .ok (.failure f) :=
  outcomeAt_eq_failure h.failure

theorem Holds.outcomeAt_value {c : Column} {row : Int} {v : Value}
    (h : c.Holds row (.value v)) :
    ∃ text, v.display = .ok text ∧ c.outcomeAt row = .ok (.value (.text text)) := by
  obtain ⟨text, hd, hr⟩ := h.shown
  exact ⟨text, hd, outcomeAt_eq_value h.failure hr⟩

/-- A row that holds an outcome has the same failure, or none. -/
theorem Holds.outcomeAt {c : Column} {row : Int} {result : Outcome} (h : c.Holds row result) :
    ∃ o, c.outcomeAt row = .ok o ∧ o.failure? = result.failure? := by
  cases result with
  | value v =>
    obtain ⟨text, -, ho⟩ := h.outcomeAt_value
    exact ⟨_, ho, rfl⟩
  | failure f => exact ⟨_, h.outcomeAt_failure, rfl⟩

/-- What a row shows, and its outcome, are a matter of what is stored. -/
theorem textAt_of_stored {c c' : Column} {row : Int} (h : c'.stored row = c.stored row) :
    c'.textAt row = c.textAt row := by
  unfold textAt
  rw [(Prod.mk.inj h).1]

theorem outcomeAt_of_stored {c c' : Column} {row : Int} (h : c'.stored row = c.stored row) :
    c'.outcomeAt row = c.outcomeAt row := by
  obtain ⟨hrows, hfailures⟩ := Prod.mk.inj h
  unfold outcomeAt
  rw [hrows, hfailures]

/-- Recording an outcome writes its row and no other. -/
theorem record_spec {c c' : Column} {row : Int} {result : Outcome}
    (h : c.record row result = .ok c') :
    c'.withoutRows = c.withoutRows ∧ c'.Holds row result ∧
      ∀ r, r ≠ row → c'.stored r = c.stored r := by
  unfold record at h
  cases hd : result.display with
  | error f =>
    rw [hd] at h
    cases h
  | ok text =>
    rw [hd] at h
    cases h
    refine ⟨rfl, ⟨⟨text, hd, ?_⟩, ?_⟩, fun r hr => ?_⟩
    · simp [OrderedMap.get?_insert]
    · cases result with
      | value v => simp [OrderedMap.get?_erase, Outcome.failure?]
      | failure f => simp [OrderedMap.get?_insert, Outcome.failure?]
    · have hr' : ¬ row = r := fun e => hr e.symm
      unfold stored
      cases result with
      | value v => simp [OrderedMap.get?_insert, OrderedMap.get?_erase, hr']
      | failure f => simp [OrderedMap.get?_insert, hr']

/-- An outcome with a text can be recorded. -/
theorem exists_record {result : Outcome} {text : String} (h : result.display = .ok text)
    (c : Column) (row : Int) : ∃ c', c.record row result = .ok c' := by
  unfold record
  rw [h]
  exact ⟨_, rfl⟩

theorem record_eq_error {result : Outcome} {f : Fault} (h : result.display = .error f)
    (c : Column) (row : Int) : c.record row result = .error f := by
  unfold record
  rw [h]
  rfl

/-- To mark a row as failed is to record the failure. -/
theorem record_failure (c : Column) (row : Int) (f : Failure) :
    c.record row (.failure f) = .ok (c.markFailed row f) := rfl

/-- Failing rows one after the other fails just these rows, each with the
failure that the name of the column gives. -/
theorem failRows_spec (rows : List Int) (c : Column) :
    let c' := rows.foldl (fun c r => c.markFailed r (Table.cycleFailure c)) c
    c'.withoutRows = c.withoutRows ∧
      (∀ r ∈ rows, c'.Holds r (.failure (Table.cycleFailure c))) ∧
      ∀ r, r ∉ rows → c'.stored r = c.stored r := by
  induction rows using List.reverseRecOn with
  | nil => simp
  | append_singleton rows row ih =>
    obtain ⟨hsame, hholds, hkept⟩ := ih
    rw [List.foldl_append, List.foldl_cons, List.foldl_nil]
    generalize rows.foldl (fun c r => c.markFailed r (Table.cycleFailure c)) c = d at *
    rw [Table.cycleFailure_of_withoutRows hsame]
    obtain ⟨hsame', hholds', hkept'⟩ := record_spec (record_failure d row (Table.cycleFailure c))
    refine ⟨hsame'.trans hsame, fun r hr => ?_, fun r hr => ?_⟩
    · by_cases hrow : r = row
      · subst hrow
        exact hholds'
      · have hmem : r ∈ rows := by simpa [hrow] using hr
        exact (hholds r hmem).of_stored (hkept' r hrow)
    · rw [List.mem_append, List.mem_singleton, not_or] at hr
      exact (hkept' r hr.2).trans (hkept r hr.1)

end Column

namespace Table

/-! ## Cells of a table -/

/-- What a table keeps for a cell, if there is a column at the position. -/
def stored (t : Table) (i : Nat) (row : Int) : Option (Option Value × Option Failure) :=
  t.columns[i]?.map fun c => c.stored row

/-- The cell holds an outcome. -/
def Holds (t : Table) (i : Nat) (row : Int) (result : Outcome) : Prop :=
  ∃ c, t.columns[i]? = some c ∧ c.Holds row result

theorem Holds.of_stored {t t' : Table} {i : Nat} {row : Int} {result : Outcome}
    (h : t.Holds i row result) (hs : t'.stored i row = t.stored i row) :
    t'.Holds i row result := by
  obtain ⟨c, hc, hholds⟩ := h
  unfold stored at hs
  rw [hc, Option.map_some, Option.map_eq_some_iff] at hs
  obtain ⟨c', hc', hsame⟩ := hs
  exact ⟨c', hc', hholds.of_stored hsame⟩

/-- A table that differs in the rows of its columns at most: the columns
are the same ones, and all else is as it was. -/
structure SameFrame (t t' : Table) : Prop where
  shape : t'.shape = t.shape
  data : t'.data = t.data
  lastRow : t'.lastRow = t.lastRow
  hasSummaries : t'.hasSummaries = t.hasSummaries
  schedule : t'.schedule = t.schedule
  evaluator : t'.evaluator = t.evaluator

theorem SameFrame.refl (t : Table) : SameFrame t t := ⟨rfl, rfl, rfl, rfl, rfl, rfl⟩

theorem SameFrame.trans {t t' t'' : Table} (h : SameFrame t t') (h' : SameFrame t' t'') :
    SameFrame t t'' :=
  ⟨h'.shape.trans h.shape, h'.data.trans h.data, h'.lastRow.trans h.lastRow,
    h'.hasSummaries.trans h.hasSummaries, h'.schedule.trans h.schedule,
    h'.evaluator.trans h.evaluator⟩

/-! ## Setting a column -/

theorem getElem?_setColumn_ne {t : Table} {i j : Nat} (c : Column) (h : j ≠ i) :
    (t.setColumn i c).columns[j]? = t.columns[j]? := by
  unfold setColumn
  exact List.getElem?_set_ne h.symm

theorem getElem?_setColumn_self {t : Table} {i : Nat} {c : Column} (c' : Column)
    (h : t.columns[i]? = some c) : (t.setColumn i c').columns[i]? = some c' := by
  unfold setColumn
  exact List.getElem?_set_self (List.getElem?_eq_some_iff.mp h).1

/-- A column with other rows in its place leaves the frame as it is. -/
theorem sameFrame_setColumn {t : Table} {i : Nat} {c c' : Column}
    (hc : t.columns[i]? = some c) (hsame : c'.withoutRows = c.withoutRows) :
    SameFrame t (t.setColumn i c') := by
  refine ⟨?_, rfl, rfl, rfl, rfl, rfl⟩
  apply List.ext_getElem?
  intro j
  rw [getElem?_shape, getElem?_shape]
  by_cases h : j = i
  · subst h
    rw [getElem?_setColumn_self c' hc, hc, Option.map_some, Option.map_some, hsame]
  · rw [getElem?_setColumn_ne c' h]

theorem stored_setColumn_ne {t : Table} {i j : Nat} (c : Column) (row : Int) (h : j ≠ i) :
    (t.setColumn i c).stored j row = t.stored j row := by
  unfold stored
  rw [getElem?_setColumn_ne c h]

theorem stored_setColumn_self {t : Table} {i : Nat} {c c' : Column} {row : Int}
    (hc : t.columns[i]? = some c) (hs : c'.stored row = c.stored row) :
    (t.setColumn i c').stored i row = t.stored i row := by
  unfold stored
  rw [getElem?_setColumn_self c' hc, hc, Option.map_some, Option.map_some, hs]

/-! ## Reading a cell -/

theorem column_eq {t : Table} {i : Nat} {c : Column} (hc : t.columns[i]? = some c) :
    t.column i = .ok c := by
  have hi := (List.getElem?_eq_some_iff.mp hc).1
  have hplace : t.place i = .ok i := by
    unfold place
    have hneg : ¬ (i : Int) < 0 := by omega
    have hin : 0 ≤ (i : Int) ∧ (i : Int) < t.columns.length := by omega
    simp only [if_neg hneg, if_pos hin, Int.toNat_natCast]
  unfold column
  simp only [hplace, hc]

/-- Down to the last row, a cell is what its column shows. -/
theorem cell_eq [Reductions] {t : Table} {i : Nat} {row : Int} {c : Column}
    (hc : t.columns[i]? = some c) (hrow : row ≤ t.lastRow) :
    t.cell row i = (c.textAt row).map Cell.text := by
  unfold cell
  rw [column_eq hc]
  exact if_neg (by omega)

theorem outcome_eq {t : Table} {i : Nat} {c : Column} (hc : t.columns[i]? = some c)
    (row : Int) : t.outcome row i = c.outcomeAt row := by
  unfold outcome
  rw [column_eq hc]

theorem column_eq_error {t : Table} {i : Nat} (hc : t.columns[i]? = none) :
    t.column i = .error .outOfRange := by
  have hlen := List.getElem?_eq_none_iff.mp hc
  have hneg : ¬ (i : Int) < 0 := by omega
  have hout : ¬ (0 ≤ (i : Int) ∧ (i : Int) < t.columns.length) := by omega
  unfold column place
  simp only [if_neg hneg, if_neg hout]

theorem outcome_eq_error {t : Table} {i : Nat} {row : Int} (hc : t.columns[i]? = none) :
    t.outcome row i = .error .outOfRange := by
  unfold outcome
  rw [column_eq_error hc]

/-- Cells that keep the same read the same, down to the last row. -/
theorem cell_eq_of_stored [Reductions] {t t' : Table} {i : Nat} {row : Int}
    (h : t'.stored i row = t.stored i row) (hrow : row ≤ t.lastRow) (hrow' : row ≤ t'.lastRow) :
    t'.cell row i = t.cell row i ∧ t'.outcome row i = t.outcome row i := by
  unfold stored at h
  cases hc : t.columns[i]? with
  | none =>
    rw [hc, Option.map_none, Option.map_eq_none_iff] at h
    unfold cell outcome
    rw [column_eq_error hc, column_eq_error h]
    exact ⟨rfl, rfl⟩
  | some c =>
    rw [hc, Option.map_some, Option.map_eq_some_iff] at h
    obtain ⟨c', hc', hsame⟩ := h
    rw [cell_eq hc hrow, cell_eq hc' hrow', outcome_eq hc, outcome_eq hc',
      Column.textAt_of_stored hsame, Column.outcomeAt_of_stored hsame]
    exact ⟨rfl, rfl⟩

/-- A cell that holds an outcome has its failure. -/
theorem Holds.outcome {t : Table} {i : Nat} {row : Int} {result : Outcome}
    (h : t.Holds i row result) :
    ∃ o, t.outcome row i = .ok o ∧ o.failure? = result.failure? := by
  obtain ⟨c, hc, hholds⟩ := h
  obtain ⟨o, ho, hfailure⟩ := hholds.outcomeAt
  exact ⟨o, (outcome_eq hc row).trans ho, hfailure⟩

/-- A cell that holds an outcome shows its text. -/
theorem Holds.cell [Reductions] {t : Table} {i : Nat} {row : Int} {result : Outcome}
    (h : t.Holds i row result) (hrow : row ≤ t.lastRow) :
    ∃ text, result.display = .ok text ∧ t.cell row i = .ok (.text text) := by
  obtain ⟨c, hc, hholds⟩ := h
  obtain ⟨text, hd, htext⟩ := hholds.textAt
  refine ⟨text, hd, ?_⟩
  rw [cell_eq hc hrow, htext]
  rfl

/-! ## One write -/

/-- One cell is written, and now holds an outcome. -/
structure Writes (t : Table) (i : Nat) (row : Int) (result : Outcome) (t' : Table) : Prop where
  frame : SameFrame t t'
  holds : t'.Holds i row result
  kept : ∀ j r, (j, r) ≠ (i, row) → t'.stored j r = t.stored j r

theorem writes_of_record {t : Table} {i : Nat} {row : Int} {result : Outcome} {c c' : Column}
    (hc : t.columns[i]? = some c) (h : c.record row result = .ok c') :
    Writes t i row result (t.setColumn i c') := by
  obtain ⟨hsame, hholds, hkept⟩ := Column.record_spec h
  refine ⟨sameFrame_setColumn hc hsame, ⟨c', getElem?_setColumn_self c' hc, hholds⟩, ?_⟩
  intro j r hne
  by_cases hj : j = i
  · subst hj
    have hr : r ≠ row := fun e => hne (by rw [e])
    exact stored_setColumn_self hc (hkept r hr)
  · exact stored_setColumn_ne c' r hj

/-- What evaluating a cell does: the expression is evaluated with what the
other columns show in the row, and the outcome is recorded. -/
theorem evaluateCell_eq_ok {t t' : Table} {i : Nat} {row : Int} {failed : Bool}
    (h : t.evaluateCell i row = .ok (t', failed)) {c : Column} (hc : t.columns[i]? = some c) :
    ∃ vars result c', t.variablesAt row c = .ok vars ∧
      t.evaluator.evaluate c.expression vars = .ok result ∧ failed = !result.isOk ∧
      c.record row result = .ok c' ∧ t' = t.setColumn i c' := by
  unfold evaluateCell at h
  rw [hc] at h
  dsimp only at h
  split at h
  · cases h
  · rename_i vars hvars
    unfold Column.evaluateRow at h
    cases he : t.evaluator.evaluate c.expression vars with
    | error f =>
      rw [he] at h
      cases h
    | ok result =>
      rw [he] at h
      cases hr : c.record row result with
      | error f =>
        simp only [hr, Except.map] at h
        cases h
      | ok c' =>
        simp only [hr, Except.map] at h
        cases h
        exact ⟨vars, result, c', hvars, he, rfl, hr, rfl⟩

/-- A cell is evaluated without a fault, when its variables, its outcome and
the text of the outcome are there. -/
theorem evaluateCell_of_outcome {t : Table} {i : Nat} {row : Int} {c : Column} {vars : Variables}
    {result : Outcome} {text : String} (hc : t.columns[i]? = some c)
    (hvars : t.variablesAt row c = .ok vars)
    (heval : t.evaluator.evaluate c.expression vars = .ok result)
    (htext : result.display = .ok text) :
    ∃ t', t.evaluateCell i row = .ok (t', !result.isOk) ∧ Writes t i row result t' := by
  obtain ⟨d, hd⟩ := Column.exists_record htext c row
  refine ⟨t.setColumn i d, ?_, writes_of_record hc hd⟩
  unfold evaluateCell
  rw [hc]
  dsimp only
  rw [hvars]
  unfold Column.evaluateRow
  dsimp only
  rw [heval]
  simp only [hd, Except.map]

theorem evaluateCell_eq_ok_of_none {t t' : Table} {i : Nat} {row : Int} {failed : Bool}
    (h : t.evaluateCell i row = .ok (t', failed)) (hc : t.columns[i]? = none) : t' = t := by
  unfold evaluateCell at h
  rw [hc] at h
  cases h
  rfl

theorem evaluateCell_spec {t t' : Table} {i : Nat} {row : Int} {failed : Bool}
    (h : t.evaluateCell i row = .ok (t', failed)) {c : Column} (hc : t.columns[i]? = some c) :
    ∃ vars result, t.variablesAt row c = .ok vars ∧
      t.evaluator.evaluate c.expression vars = .ok result ∧ failed = !result.isOk ∧
      Writes t i row result t' := by
  obtain ⟨vars, result, c', hvars, he, hfailed, hr, rfl⟩ := evaluateCell_eq_ok h hc
  exact ⟨vars, result, hvars, he, hfailed, writes_of_record hc hr⟩

/-- Failing a column writes its failure into all rows of the table. -/
theorem failColumn_spec {t : Table} {i : Nat} {c : Column} (hc : t.columns[i]? = some c) :
    SameFrame t (t.failColumn i) ∧
      (∀ row ∈ t.rowIndices, (t.failColumn i).Holds i row (.failure (cycleFailure c))) ∧
      ∀ j r, ¬ (j = i ∧ r ∈ t.rowIndices) → (t.failColumn i).stored j r = t.stored j r := by
  obtain ⟨hsame, hholds, hkept⟩ := Column.failRows_spec t.rowIndices c
  unfold failColumn
  rw [hc]
  dsimp only
  generalize t.rowIndices.foldl (fun c r => c.markFailed r (cycleFailure c)) c = c' at *
  refine ⟨sameFrame_setColumn hc hsame, fun row hrow => ?_, fun j r hjr => ?_⟩
  · exact ⟨c', getElem?_setColumn_self c' hc, hholds row hrow⟩
  · by_cases hj : j = i
    · subst hj
      exact stored_setColumn_self hc (hkept r fun hr => hjr ⟨rfl, hr⟩)
    · exact stored_setColumn_ne c' r hj

end Table

end Worksheet
