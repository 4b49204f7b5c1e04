-- The order in which the columns are declared. Calculated columns may change
-- places among themselves: the raw rows stay with the columns of data, so the
-- tables have the same columns by name, and a recalculation does the same in
-- both.
import Worksheet.Proofs.Table.Reordered
import Worksheet.Proofs.Table.Independence
import Worksheet.Proofs.Table.ReportedCells

namespace Worksheet

/-! ## Columns in other places -/

/-- The same columns, with the calculated ones in other places among
themselves. -/
structure Rearranged (columns columns' : List Column) : Prop where
  perm : columns'.Perm columns
  fixed : ∀ (i : Nat) (c : Column), columns[i]? = some c → c.isCalculated = false →
    columns'[i]? = some c

namespace Table

/-! ## Binding the data -/

theorem named_bindData {t : Table} (h : t.Distinct) {i : Nat} {c : Column}
    (hc : t.columns[i]? = some c) : t.bindData.named c.name = some (bindRaw t.data c i) := by
  have hpos := (position?_of_shape_eq t.shape_bindData c.name).trans (h.position? hc)
  rw [named_of_position hpos, getElem?_bindData, hc]
  rfl

theorem named_bindData_eq_none {t : Table} {name : String}
    (h : ∀ c ∈ t.columns, c.name ≠ name) : t.bindData.named name = none := by
  rw [Option.eq_none_iff_forall_ne_some]
  intro d hd
  obtain ⟨i, -, hi, hname⟩ := named_eq_some hd
  rw [getElem?_bindData, Option.map_eq_some_iff] at hi
  obtain ⟨c, hc, rfl⟩ := hi
  apply h c (List.mem_of_getElem? hc)
  rw [← hname, ← Column.name_eq_of_withoutRows (bindRaw_withoutRows t.data c i)]

/-- The data has no rows for the position. -/
def Unbound (data : RawData) (i : Nat) : Prop :=
  ∀ rows, data.get? i = some rows → rows.entries = []

theorem bindRaw_of_unbound {data : RawData} {i : Nat} (h : Unbound data i) (c : Column) :
    bindRaw data c.withoutRows i = c.withoutRows := by
  unfold bindRaw
  cases hrows : data.get? i with
  | none => rfl
  | some rows =>
    dsimp only
    rw [h rows hrows]
    rfl

section

variable {t t' : Table}

/-- A column without rows has the same raw rows in its new place: it has not
moved, or there are no raw rows in either place. -/
theorem bindRaw_of_rearranged (hdata : t'.data = t.data) (hd : t.Distinct)
    (hunbound : ∀ (i : Nat) (c : Column), t.columns[i]? = some c → c.isCalculated = true →
      Unbound t.data i)
    (h : Rearranged t.columns t'.columns) {i i' : Nat} {c : Column} (hempty : c.withoutRows = c)
    (hc : t.columns[i]? = some c) (hc' : t'.columns[i']? = some c) :
    bindRaw t'.data c i' = bindRaw t.data c i := by
  have hd' : t'.Distinct := (h.perm.map Column.name).nodup_iff.mpr hd
  rw [hdata]
  cases hcalc : c.isCalculated with
  | false =>
    have hsame := hd'.position? (h.fixed i c hc hcalc)
    rw [hd'.position? hc', Option.some.injEq] at hsame
    rw [hsame]
  | true =>
    have hunbound' : Unbound t.data i' := by
      have hlt : i' < t.columns.length :=
        h.perm.length_eq ▸ (List.getElem?_eq_some_iff.mp hc').1
      have he : t.columns[i']? = some t.columns[i'] := List.getElem?_eq_getElem hlt
      cases hecalc : t.columns[i'].isCalculated with
      | true => exact hunbound i' _ he hecalc
      | false =>
        -- a column that stays would be in this place
        have hfixed := h.fixed i' _ he hecalc
        rw [hc', Option.some.injEq] at hfixed
        rw [← hfixed, hcalc] at hecalc
        cases hecalc
    rw [← hempty, bindRaw_of_unbound hunbound', bindRaw_of_unbound (hunbound i c hc hcalc)]

theorem reordered_bindData (hs : t.schedule = .dependency) (hs' : t'.schedule = .dependency)
    (hev : t'.evaluator = t.evaluator) (hdata : t'.data = t.data) (hd : t.Distinct)
    (hunbound : ∀ (i : Nat) (c : Column), t.columns[i]? = some c → c.isCalculated = true →
      Unbound t.data i)
    (hempty : ∀ c ∈ t.columns, c.withoutRows = c)
    (h : Rearranged t.columns t'.columns) : Reordered t.bindData t'.bindData := by
  have hd' : t'.Distinct := (h.perm.map Column.name).nodup_iff.mpr hd
  refine ⟨hs, hs', hev, ?_, distinct_of_shape_eq t.shape_bindData hd,
    distinct_of_shape_eq t'.shape_bindData hd', fun name => ?_⟩
  · have hlast : t'.boundLastRow = t.boundLastRow := by
      unfold boundLastRow
      rw [hdata, h.perm.length_eq]
    exact hlast
  · by_cases hname : ∃ c ∈ t.columns, c.name = name
    · obtain ⟨c, hmem, rfl⟩ := hname
      obtain ⟨i, hc⟩ := List.mem_iff_getElem?.mp hmem
      obtain ⟨i', hc'⟩ := List.mem_iff_getElem?.mp (h.perm.mem_iff.mpr hmem)
      rw [named_bindData hd hc, named_bindData hd' hc',
        bindRaw_of_rearranged hdata hd hunbound h (hempty c hmem) hc hc']
    · have hnone : ∀ c ∈ t.columns, c.name ≠ name := fun c hc he => hname ⟨c, hc, he⟩
      rw [named_bindData_eq_none hnone,
        named_bindData_eq_none fun c hc => hnone c (h.perm.mem_iff.mp hc)]

end

/-! ## Two recalculations -/

/-- Recalculations of tables with the same columns by name both report, and
then report and leave the same, or both stop. -/
theorem Reordered.recalculate {t t' : Table} (h : Reordered t.bindData t'.bindData) :
    match t.recalculate.report, t'.recalculate.report with
    | .ok report, .ok report' =>
      SameByName t.recalculate.table t'.recalculate.table ∧ SameCounts report report'
    | .error _, .error _ => True
    | _, _ => False := by
  rcases t.recalculate_cases with ⟨f, hfault, hreport, -⟩ | ⟨hdone, hreport, htable⟩
  · rcases t'.recalculate_cases with ⟨f', -, hreport', -⟩ | ⟨hdone', -, -⟩
    · rw [hreport, hreport']
      trivial
    · rw [h.fault?_eq_none hdone'] at hfault
      cases hfault
  · have hdone' := h.symm.fault?_eq_none hdone
    rcases t'.recalculate_cases with ⟨f', hfault', -, -⟩ | ⟨-, hreport', htable'⟩
    · rw [hdone'] at hfault'
      cases hfault'
    · rw [hreport, hreport', htable, htable']
      exact ⟨h.sameByName_pass hdone hdone', h.sameCounts hdone hdone'⟩

/-- Tables with the same columns in other places, as new. -/
theorem reordered_afresh {t t' : Table} (hs : t.schedule = .dependency)
    (hs' : t'.schedule = .dependency) (hev : t'.evaluator = t.evaluator) (hdata : t'.data = t.data)
    (hd : t.Distinct)
    (hunbound : ∀ (i : Nat) (c : Column), t.columns[i]? = some c → c.isCalculated = true →
      Unbound t.data i)
    (h : Rearranged t.shape t'.shape) : Reordered t.afresh.bindData t'.afresh.bindData := by
  have hs' : t'.afresh.schedule = .dependency := hs'
  have hev : t'.afresh.evaluator = t.afresh.evaluator := hev
  have hdata : t'.afresh.data = t.afresh.data := hdata
  refine reordered_bindData hs hs' hev hdata (distinct_of_shape_eq t.shape_afresh hd) ?_ ?_ h
  · intro i c hc hcalc
    rw [getElem?_afresh, Option.map_eq_some_iff] at hc
    obtain ⟨d, hd, rfl⟩ := hc
    exact hunbound i d hd hcalc
  · intro c hmem
    obtain ⟨d, -, rfl⟩ := List.mem_map.mp hmem
    rfl

/-- The names of the blocked columns are reported in the order in which the
columns are declared. -/
theorem blockedColumns_sublist {t : Table} {report : Report}
    (h : t.recalculate.report = .ok report) :
    report.blockedColumns.Sublist (t.columns.map Column.name) := by
  obtain ⟨hdone, rfl, -⟩ := pass_of_report h
  have hshape := (t.bindData.pass_cells).1.shape.trans t.shape_bindData
  rw [(describes_pass hdone).blockedColumns, names_of_shape_eq hshape]
  exact List.filter_sublist.map _

/-! ## A sheet -/

/-- A column of data, and calculated columns after it. -/
def afterData (calculated : List Column) : List Column :=
  .ofParts "A" .data "a" "" .sum :: calculated

/-- A column that refers forward, one that refers to the data, and one that
refers to itself. -/
def forwardAndCyclic : List Column :=
  [.ofParts "B" .calculated "b" "#C# + 1" .none, .ofParts "C" .calculated "c" "#A# * 2" .none,
    .ofParts "X" .calculated "x" "#X#" .none]

/-- Columns that are added to a new table, as changes. -/
def added (calculated : List Column) : List Change := [.append (afterData calculated)]

theorem shape_added (data : RawData) (ev : Evaluator) (calculated : List Column) :
    ((ofData data .dependency ev).after (added calculated)).shape =
      (afterData calculated).map Column.withoutRows := by
  simp [shape, after, added, change, append, ofData, Function.comp_def, Column.withoutRows,
    Column.ofParts]

/-! ## The law -/

/-- By dependency it is no matter in which order the calculated columns are
declared. Two tables over the same data whose columns are the same, with the
calculated ones in other places among themselves, both report or both stop,
whatever was done with them before. If they report, then the columns of a name
hold and show the same in both, the counts are the same, and so are the columns
that fail for a cycle, listed in the new order. They can only stop at a value
of the data or of the engine that has no text. -/
theorem declared_order_does_not_matter (data : RawData) (ev : Evaluator)
    (changes changes' : List Change)
    (hdistinct : (((ofData data .dependency ev).after changes).columns.map Column.name).Nodup)
    (hunbound : ∀ (i : Nat) (c : Column),
      ((ofData data .dependency ev).after changes).columns[i]? = some c →
        c.isCalculated = true → Unbound data i)
    (hmoved : Rearranged ((ofData data .dependency ev).after changes).shape
      ((ofData data .dependency ev).after changes').shape) :
    let t := (ofData data .dependency ev).after changes
    let t' := (ofData data .dependency ev).after changes'
    match t.recalculate.report, t'.recalculate.report with
    | .ok report, .ok report' =>
      SameByName t.recalculate.table t'.recalculate.table ∧ SameCounts report report' ∧
        report'.blockedColumns.Sublist (t'.columns.map Column.name)
    | .error f, .error f' =>
      (∃ v, v.display = .error f ∧ (RawValue data v ∨ ∃ text, ev.engine text = .ok v)) ∧
        ∃ v, v.display = .error f' ∧ (RawValue data v ∨ ∃ text, ev.engine text = .ok v)
    | _, _ => False := by
  obtain ⟨hkept, hdata, hschedule, hev⟩ := after_spec data .dependency ev changes
  obtain ⟨hkept', hdata', hschedule', hev'⟩ := after_spec data .dependency ev changes'
  have horder := rowsInOrder_after data .dependency ev changes
  have horder' := rowsInOrder_after data .dependency ev changes'
  generalize (ofData data .dependency ev).after changes = t at *
  generalize (ofData data .dependency ev).after changes' = t' at *
  subst hdata
  subst hev
  have hrun := (reordered_afresh hschedule hschedule' hev' hdata' hdistinct hunbound
    hmoved).recalculate
  -- both tables are as new
  obtain ⟨hreport, hsame⟩ := recalculate_afresh hschedule hkept horder
  obtain ⟨hreport', hsame'⟩ := recalculate_afresh hschedule' hkept' horder'
  rw [← hreport, ← hreport'] at hrun
  dsimp only
  cases hr : t.recalculate.report with
  | error f =>
    cases hr' : t'.recalculate.report with
    | error f' =>
      have horigin' := origin_of_recalculate_error hkept' hr'
      rw [hdata', hev'] at horigin'
      exact ⟨origin_of_recalculate_error hkept hr, horigin'⟩
    | ok report' =>
      rw [hr, hr'] at hrun
      exact hrun
  | ok report =>
    cases hr' : t'.recalculate.report with
    | error f' =>
      rw [hr, hr'] at hrun
      exact hrun
    | ok report' =>
      rw [hr, hr'] at hrun
      obtain ⟨hcolumns, hcounts⟩ := hrun
      obtain ⟨hfresh, -⟩ := hsame report hr
      obtain ⟨hfresh', -⟩ := hsame' report' hr'
      exact ⟨(hfresh.sameByName.trans hcolumns).trans hfresh'.sameByName.symm, hcounts,
        blockedColumns_sublist hr'⟩

/-- Columns that refer forward, to the data and to themselves, from the last
to the first. -/
theorem reversed_forwardAndCyclic :
    let t := (ofData (dataOfInts [2, 5]) .dependency echoing).after (added forwardAndCyclic)
    let t' := (ofData (dataOfInts [2, 5]) .dependency echoing).after
      (added forwardAndCyclic.reverse)
    ∃ report report', t.recalculate.report = .ok report ∧ t'.recalculate.report = .ok report' ∧
      SameByName t.recalculate.table t'.recalculate.table ∧ SameCounts report report' ∧
        report'.blockedColumns.Sublist (t'.columns.map Column.name) := by
  intro t t'
  have hdistinct : (t.columns.map Column.name).Nodup := by decide +kernel
  have hunbound : ∀ (i : Nat) (c : Column), t.columns[i]? = some c → c.isCalculated = true →
      Unbound (dataOfInts [2, 5]) i := by
    intro i c hc hcalc rows hrows
    have hmem := OrderedMap.mem_of_get?_ofList hrows
    rw [List.mem_singleton, Prod.mk.injEq] at hmem
    obtain ⟨rfl, -⟩ := hmem
    cases hc
    cases hcalc
  have hmoved : Rearranged t.shape t'.shape := by
    rw [shape_added, shape_added]
    refine ⟨((List.reverse_perm _).cons _).map _, fun i c hc hcalc => ?_⟩
    match i with
    | 0 => exact hc
    | 1 => cases hc; cases hcalc
    | 2 => cases hc; cases hcalc
    | 3 => cases hc; cases hcalc
    | n + 4 => cases hc
  obtain ⟨hkept, hdata, -, hev⟩ := after_spec (dataOfInts [2, 5]) .dependency echoing
    (added forwardAndCyclic)
  obtain ⟨hkept', hdata', -, hev'⟩ := after_spec (dataOfInts [2, 5]) .dependency echoing
    (added forwardAndCyclic.reverse)
  obtain ⟨report, hreport⟩ := exists_report_of_echoing hkept hdata hev
  obtain ⟨report', hreport'⟩ := exists_report_of_echoing hkept' hdata' hev'
  have hlaw := declared_order_does_not_matter (dataOfInts [2, 5]) echoing
    (added forwardAndCyclic) (added forwardAndCyclic.reverse) hdistinct hunbound hmoved
  dsimp only at hlaw
  rw [hreport, hreport'] at hlaw
  exact ⟨report, report', hreport, hreport', hlaw⟩

end Table

end Worksheet
