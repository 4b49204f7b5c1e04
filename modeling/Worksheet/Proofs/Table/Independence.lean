-- What a cell depends on. A calculated column reads other columns by their
-- names, those read others in turn, and a cell is a matter of the columns
-- that are reached that way and of the raw values that they have in its row.
-- Two new tables that agree in these show the same in the cell, whatever
-- else is different in them.
import Worksheet.Proofs.Summary.Alike
import Worksheet.Proofs.Table.Recalculation
import Worksheet.Proofs.Table.RowOrder

open Relation

namespace Worksheet

/-! ## Reading from columns -/

/-- The calculated column at `i` has a name in its expression that stands
for the column at `j`, calculated or not. -/
def ReadsFrom (columns : List Column) (i j : Nat) : Prop :=
  ∃ c name, columns[i]? = some c ∧ c.isCalculated = true ∧ name ∈ c.reads ∧
    StandsFor columns name j

/-- The columns at `i` have one type and one expression. -/
def SameRule (columns columns' : List Column) (i : Nat) : Prop :=
  (columns'[i]?.map fun c => (c.type, c.expression)) =
    columns[i]?.map fun c => (c.type, c.expression)

/-- The value that the data has for a row of a column, if there is one. -/
def rawValue? (data : RawData) (i : Nat) (row : Int) : Option Value :=
  if row < 0 then none else (data.get? i).bind fun rows => rows.get? row.toNat

theorem refersTo_iff_readsFrom {columns : List Column} {i j : Nat} :
    RefersTo columns i j ↔
      ReadsFrom columns i j ∧ ∃ d, columns[j]? = some d ∧ d.isCalculated = true := by
  constructor
  · rintro ⟨c, d, name, hc, hcalc, hread, hs, hd, hdcalc⟩
    exact ⟨⟨c, name, hc, hcalc, hread, hs⟩, d, hd, hdcalc⟩
  · rintro ⟨⟨c, name, hc, hcalc, hread, hs⟩, d, hd, hdcalc⟩
    exact ⟨c, d, name, hc, hcalc, hread, hs, hd, hdcalc⟩

/-! ## One rule in two lists -/

theorem SameRule.symm {columns columns' : List Column} {i : Nat}
    (h : SameRule columns columns' i) : SameRule columns' columns i := Eq.symm h

theorem SameRule.trans {columns columns' columns'' : List Column} {i : Nat}
    (h : SameRule columns columns' i) (h' : SameRule columns' columns'' i) :
    SameRule columns columns'' i := Eq.trans h' h

/-- The other column of the rule has the same type, expression and reads. -/
theorem SameRule.exists {columns columns' : List Column} {i : Nat} {c : Column}
    (h : SameRule columns columns' i) (hc : columns[i]? = some c) :
    ∃ c', columns'[i]? = some c' ∧ c'.expression = c.expression ∧
      c'.isCalculated = c.isCalculated ∧ c'.reads = c.reads := by
  unfold SameRule at h
  rw [hc, Option.map_some, Option.map_eq_some_iff] at h
  obtain ⟨c', hc', he⟩ := h
  obtain ⟨htype, hexpr⟩ := Prod.mk.inj he
  refine ⟨c', hc', hexpr, ?_, ?_⟩
  · unfold Column.isCalculated
    rw [htype]
  · unfold Column.reads
    rw [hexpr]

section

variable {columns columns' : List Column} {i : Nat}

theorem readsFrom_of_sameRule (hnames : columns'.map Column.name = columns.map Column.name)
    (h : SameRule columns columns' i) {j : Nat} (hr : ReadsFrom columns i j) :
    ReadsFrom columns' i j := by
  obtain ⟨c, name, hc, hcalc, hread, hs⟩ := hr
  obtain ⟨c', hc', -, hcalc', hreads'⟩ := h.exists hc
  exact ⟨c', name, hc', hcalc'.trans hcalc, hreads' ▸ hread, standsFor_of_names_eq hnames hs⟩

theorem refersTo_of_sameRule (hnames : columns'.map Column.name = columns.map Column.name)
    (hi : SameRule columns columns' i) {j : Nat} (hj : SameRule columns columns' j)
    (hr : RefersTo columns i j) : RefersTo columns' i j := by
  obtain ⟨hreads, d, hd, hcalc⟩ := refersTo_iff_readsFrom.mp hr
  obtain ⟨d', hd', -, hcalc', -⟩ := hj.exists hd
  exact refersTo_iff_readsFrom.mpr
    ⟨readsFrom_of_sameRule hnames hi hreads, d', hd', hcalc'.trans hcalc⟩

/-- What is reached by the other list is reached by the one, as long as the
rules are the same on the way. -/
theorem reflTransGen_of_sameRule (hnames : columns'.map Column.name = columns.map Column.name)
    (h : ∀ j, ReflTransGen (ReadsFrom columns) i j → SameRule columns columns' j) {j : Nat}
    (hr : ReflTransGen (ReadsFrom columns') i j) : ReflTransGen (ReadsFrom columns) i j := by
  induction hr with
  | refl => exact .refl
  | tail _ hstep ih => exact ih.tail (readsFrom_of_sameRule hnames.symm (h _ ih).symm hstep)

/-- Whether a cycle is reached is a matter of the edges on the way. -/
theorem ReachesCycle.of_edges {α : Type} {r r' : α → α → Prop} {a : α}
    (h : ∀ b c, ReflTransGen r a b → r b c → r' b c) (hr : ReachesCycle r a) :
    ReachesCycle r' a := by
  obtain ⟨c, hwalk, hcycle⟩ := hr
  have hto : ∀ b, ReflTransGen r a b → ReflTransGen r' a b := by
    intro b hb
    induction hb with
    | refl => exact .refl
    | tail hb hstep ih => exact ih.tail (h _ _ hb hstep)
  have haround : ∀ b, TransGen r c b → TransGen r' c b := by
    intro b hb
    induction hb with
    | single hstep => exact .single (h _ _ hwalk hstep)
    | tail hb hstep ih => exact ih.tail (h _ _ (hwalk.trans hb.to_reflTransGen) hstep)
  exact ⟨c, hto c hwalk, haround c hcycle⟩

theorem reachesCycle_of_sameRule (hnames : columns'.map Column.name = columns.map Column.name)
    (h : ∀ j, ReflTransGen (ReadsFrom columns) i j → SameRule columns columns' j)
    (hr : ReachesCycle (RefersTo columns) i) : ReachesCycle (RefersTo columns') i := by
  refine hr.of_edges fun b c hb hbc => ?_
  have hreads : ∀ x y, RefersTo columns x y → ReadsFrom columns x y := fun _ _ hxy =>
    (refersTo_iff_readsFrom.mp hxy).1
  have hb' : ReflTransGen (ReadsFrom columns) i b := ReflTransGen.mono hreads _ _ hb
  exact refersTo_of_sameRule hnames (h b hb') (h c (hb'.tail (hreads b c hbc))) hbc

/-- Whether a cycle of references is reached is a matter of the rules that
are reached. -/
theorem reachesCycle_iff_of_sameRule
    (hnames : columns'.map Column.name = columns.map Column.name)
    (h : ∀ j, ReflTransGen (ReadsFrom columns) i j → SameRule columns columns' j) :
    ReachesCycle (RefersTo columns') i ↔ ReachesCycle (RefersTo columns) i := by
  constructor
  · exact reachesCycle_of_sameRule hnames.symm fun j hj =>
      (h j (reflTransGen_of_sameRule hnames h hj)).symm
  · exact reachesCycle_of_sameRule hnames h

end

namespace Table

/-! ## Two passes -/

/-- Two tables that are evaluated by dependency, with one evaluator, and
whose columns have the same names. -/
structure SameNames (t t' : Table) : Prop where
  schedule : t.schedule = .dependency
  schedule' : t'.schedule = .dependency
  evaluator : t'.evaluator = t.evaluator
  names : t'.columns.map Column.name = t.columns.map Column.name

/-- The tables agree in all that a cell depends on. -/
def SameInputs (t t' : Table) (i : Nat) (row : Int) : Prop :=
  ∀ j, ReflTransGen (ReadsFrom t.columns) i j →
    SameRule t.columns t'.columns j ∧ t'.stored j row = t.stored j row

theorem SameInputs.of_readsFrom {t t' : Table} {i j : Nat} {row : Int}
    (h : SameInputs t t' i row) (hr : ReadsFrom t.columns i j) : SameInputs t t' j row :=
  fun k hk => h k (.head hr hk)

section

variable {t t' : Table} {i : Nat} {row : Int}

theorem mem_calculatedPositions_of_sameRule (h : SameRule t.columns t'.columns i)
    (hi : i ∈ t.calculatedPositions) : i ∈ t'.calculatedPositions := by
  obtain ⟨c, hc, hcalc⟩ := (mem_calculatedPositions t i).mp hi
  obtain ⟨c', hc', -, hcalc', -⟩ := h.exists hc
  exact (mem_calculatedPositions t' i).mpr ⟨c', hc', hcalc'.trans hcalc⟩

theorem SameInputs.mem_order_iff (h : SameInputs t t' i row) (hboth : SameNames t t') :
    i ∈ t'.plan.order ↔ i ∈ t.plan.order := by
  have hrule := (h i .refl).1
  rw [mem_order_iff_not_reachesCycle hboth.schedule, mem_order_iff_not_reachesCycle hboth.schedule',
    reachesCycle_iff_of_sameRule hboth.names fun j hj => (h j hj).1]
  refine and_congr_left fun _ => ⟨?_, ?_⟩
  · exact mem_calculatedPositions_of_sameRule hrule.symm
  · exact mem_calculatedPositions_of_sameRule hrule

theorem SameInputs.mem_blocked_iff (h : SameInputs t t' i row) (hboth : SameNames t t') :
    i ∈ t'.plan.blocked ↔ i ∈ t.plan.blocked := by
  rw [mem_blocked_iff_reachesCycle hboth.schedule, mem_blocked_iff_reachesCycle hboth.schedule',
    reachesCycle_iff_of_sameRule hboth.names fun j hj => (h j hj).1]

/-- A cell that is not evaluated is as it was, or fails for a cycle in both
tables. -/
theorem SameInputs.stored_pass_of_not_evaluated (h : SameInputs t t' i row)
    (hboth : SameNames t t') (hrows : row ∈ t'.rowIndices ↔ row ∈ t.rowIndices)
    (hdone : t.pass.fault? = none) (hdone' : t'.pass.fault? = none)
    (hno : ¬ (i ∈ t.plan.order ∧ row ∈ t.rowIndices)) :
    t'.pass.table.stored i row = t.pass.table.stored i row := by
  obtain ⟨-, -, hblocked, hrest⟩ := pass_spec hboth.schedule hdone
  obtain ⟨-, -, hblocked', hrest'⟩ := pass_spec hboth.schedule' hdone'
  by_cases hb : i ∈ t.plan.blocked ∧ row ∈ t.rowIndices
  · obtain ⟨hi, hrow⟩ := hb
    obtain ⟨c, hc, -⟩ := (mem_calculatedPositions t i).mp (t.blocked_subset hi)
    obtain ⟨c', hc', hname⟩ := exists_of_names_eq hboth.names hc
    have hfails := hblocked i hi c hc row hrow
    have hfails' := hblocked' i ((h.mem_blocked_iff hboth).mpr hi) c' hc' row (hrows.mpr hrow)
    have hsame : cycleFailure c' = cycleFailure c := by
      unfold cycleFailure
      rw [hname]
    rw [hsame] at hfails'
    exact hfails.stored_eq hfails'
  · have hout : ¬ (i ∈ t.calculatedPositions ∧ row ∈ t.rowIndices) := by
      rintro ⟨hi, hrow⟩
      rw [← t.plan_perm.mem_iff, List.mem_append] at hi
      rcases hi with hi | hi
      · exact hb ⟨hi, hrow⟩
      · exact hno ⟨hi, hrow⟩
    have hout' : ¬ (i ∈ t'.calculatedPositions ∧ row ∈ t'.rowIndices) := fun hin =>
      hout ⟨mem_calculatedPositions_of_sameRule (h i .refl).1.symm hin.1, hrows.mp hin.2⟩
    rw [hrest' i row hout', hrest i row hout]
    exact (h i .refl).2

/-- Two passes leave the same in a cell when the tables agree in all that it
depends on. -/
theorem SameInputs.stored_pass (h : SameInputs t t' i row) (hboth : SameNames t t')
    (hrows : row ∈ t'.rowIndices ↔ row ∈ t.rowIndices)
    (hdone : t.pass.fault? = none) (hdone' : t'.pass.fault? = none) :
    t'.pass.table.stored i row = t.pass.table.stored i row := by
  obtain ⟨hframe, hagrees, -, -⟩ := pass_spec hboth.schedule hdone
  obtain ⟨hframe', hagrees', -, -⟩ := pass_spec hboth.schedule' hdone'
  -- by the place in the order of the first table: what is read stands before
  induction hn : t.plan.order.idxOf i using Nat.strong_induction_on generalizing i with
  | _ n ih =>
    by_cases hin : i ∈ t.plan.order ∧ row ∈ t.rowIndices
    · obtain ⟨hi, hrow⟩ := hin
      have hi' := (h.mem_order_iff hboth).mpr hi
      refine (hagrees i hi row hrow).stored_eq (hagrees' i hi' row (hrows.mpr hrow)) ?_ ?_ ?_ ?_
      · rw [hframe'.evaluator, hframe.evaluator, hboth.evaluator]
      · apply position?_of_names_eq
        rw [names_of_shape_eq hframe'.shape.symm, names_of_shape_eq hframe.shape.symm, hboth.names]
      · intro c c' hc hc'
        obtain ⟨d, hd, hsame⟩ := exists_of_shape_eq hframe.shape hc
        obtain ⟨d', hd', hsame'⟩ := exists_of_shape_eq hframe'.shape hc'
        obtain ⟨e, he, hexpr, -⟩ := (h i .refl).1.exists hd
        rw [hd', Option.some.injEq] at he
        rw [← Column.expression_eq_of_withoutRows hsame,
          ← Column.expression_eq_of_withoutRows hsame', he, hexpr]
      · intro j hj
        have hnames := namesColumn_of_shape_eq hframe.shape hj
        have hcalc := t.order_subset hi
        obtain ⟨c, hc, hisCalc⟩ := (mem_calculatedPositions t i).mp hcalc
        obtain ⟨d, name, hd, hread, hs⟩ := id hnames
        rw [hc, Option.some.injEq] at hd
        subst hd
        have hinputs := h.of_readsFrom ⟨c, name, hc, hisCalc, hread, hs⟩
        by_cases hjo : j ∈ t.plan.order
        · have hrefers := refersTo_of_namesColumn hcalc (t.order_subset hjo) hnames
          have hlt := (idxOf_order_lt hboth.schedule hi hrefers).2
          exact ih _ (hn ▸ hlt) hinputs rfl
        · exact hinputs.stored_pass_of_not_evaluated hboth hrows hdone hdone' fun hj' => hjo hj'.1
    · exact h.stored_pass_of_not_evaluated hboth hrows hdone hdone' hin

end

/-! ## New tables -/

theorem get?_withRows (c : Column) (rows : OrderedMap Nat Value) (row : Int) :
    (c.withRows rows.entries).rows.get? row = if row < 0 then none else rows.get? row.toNat := by
  split
  · rename_i hneg
    rw [Option.eq_none_iff_forall_ne_some]
    intro v hv
    obtain ⟨n, rfl, -⟩ := mem_of_get?_withRows hv
    omega
  · rename_i hrow
    obtain ⟨n, rfl⟩ : ∃ n : Nat, row = n := ⟨row.toNat, by omega⟩
    rw [Int.toNat_natCast]
    exact OrderedMap.get?_ofList_renamed (fun a b => Int.ofNat.inj) rows n

theorem stored_bindRaw_withoutRows (data : RawData) (c : Column) (i : Nat) (row : Int) :
    (bindRaw data c.withoutRows i).stored row = (rawValue? data i row, none) := by
  unfold bindRaw rawValue?
  cases data.get? i with
  | none => simp [Column.stored, Column.withoutRows, Column.ofParts]
  | some rows =>
    unfold Column.stored
    dsimp only
    rw [get?_withRows]
    rfl

section

variable (data : RawData) (s : Schedule) (ev : Evaluator) (columns : List Column)

/-- A new table with its data bound has the raw values in its cells. -/
theorem stored_bindData_new (i : Nat) (row : Int) :
    ((ofData data s ev).append columns).bindData.stored i row =
      columns[i]?.map fun _ => (rawValue? data i row, none) := by
  have hcolumn : ((ofData data s ev).append columns).columns[i]? =
      columns[i]?.map Column.withoutRows := by simp [append, ofData]
  unfold stored
  rw [getElem?_bindData, hcolumn, Option.map_map, Option.map_map]
  apply congrArg (fun f => columns[i]?.map f)
  funext c
  exact stored_bindRaw_withoutRows data c i row

theorem shape_bindData_new :
    ((ofData data s ev).append columns).bindData.shape = columns.map Column.withoutRows := by
  rw [shape_bindData]
  simp [shape, append, ofData, Function.comp_def, Column.withoutRows, Column.ofParts]

theorem names_bindData_new :
    ((ofData data s ev).append columns).bindData.columns.map Column.name =
      columns.map Column.name := by
  have hshape := congrArg (List.map Column.name) (shape_bindData_new data s ev columns)
  unfold shape at hshape
  rw [List.map_map, List.map_map] at hshape
  exact hshape

theorem sameRule_bindData_new (i : Nat) :
    SameRule columns ((ofData data s ev).append columns).bindData.columns i := by
  have hi := congrArg (fun l => l[i]?.map fun c : Column => (c.type, c.expression))
    (shape_bindData_new data s ev columns)
  unfold shape at hi
  simp only [List.getElem?_map, Option.map_map] at hi
  exact hi

end

/-! ## Two recalculations -/

/-- New tables that agree in the columns that are reached agree, with their
data bound, in all that a cell depends on. -/
theorem sameInputs_new (data data' : RawData) (ev : Evaluator) {columns columns' : List Column}
    {i : Nat} {row : Int} (hnames : columns'.map Column.name = columns.map Column.name)
    (hsame : ∀ j, ReflTransGen (ReadsFrom columns) i j →
      SameRule columns columns' j ∧ rawValue? data' j row = rawValue? data j row) :
    SameInputs ((ofData data .dependency ev).append columns).bindData
      ((ofData data' .dependency ev).append columns').bindData i row := by
  intro j hj
  have hrule := sameRule_bindData_new data .dependency ev columns
  have hrule' := sameRule_bindData_new data' .dependency ev columns'
  have hreach := reflTransGen_of_sameRule (names_bindData_new data .dependency ev columns)
    (fun k _ => hrule k) hj
  obtain ⟨hcolumns, hraw⟩ := hsame j hreach
  refine ⟨(hrule j).symm.trans (hcolumns.trans (hrule' j)), ?_⟩
  rw [stored_bindData_new, stored_bindData_new, hraw]
  cases hc : columns[j]? with
  | none =>
    have hj' := congrArg (·[j]?) hnames
    simp only [List.getElem?_map, hc, Option.map_none, Option.map_eq_none_iff] at hj'
    rw [hj']
  | some c =>
    obtain ⟨c', hc', -⟩ := exists_of_names_eq hnames hc
    rw [hc']
    rfl

/-! ## A sheet -/

/-- An evaluator whose engine gives back the text. -/
def echoing : Evaluator := ⟨fun text => .ok (.text text)⟩

/-- Data for one column, in its first rows. -/
def dataOfInts (ns : List Int) : RawData :=
  .ofList [(0, .ofList (ns.zipIdx.map fun p => (p.2, .int p.1)))]

theorem int_of_dataOfInts {ns : List Int} {v : Value} (h : RawValue (dataOfInts ns) v) :
    ∃ n, v = .int n := by
  obtain ⟨i, rows, hrows, hv⟩ := h
  have hmem := OrderedMap.mem_of_get?_ofList hrows
  rw [List.mem_singleton, Prod.mk.injEq] at hmem
  obtain ⟨-, rfl⟩ := hmem
  obtain ⟨⟨k, w⟩, hw, rfl⟩ := List.mem_map.mp hv
  rw [← OrderedMap.get?_eq_some_iff] at hw
  obtain ⟨⟨n, j⟩, -, he⟩ := List.mem_map.mp (OrderedMap.mem_of_get?_ofList hw)
  exact ⟨n, (Prod.mk.inj he).2.symm⟩

/-- Over integers, an engine that gives back the text stops at nothing. -/
theorem exists_report_of_echoing {ns : List Int} {t : Table} (hkept : Kept t)
    (hdata : t.data = dataOfInts ns) (hev : t.evaluator = echoing) :
    ∃ report, t.recalculate.report = .ok report := by
  cases hr : t.recalculate.report with
  | ok report => exact ⟨report, rfl⟩
  | error f =>
    obtain ⟨v, hv, hraw | ⟨text, htext⟩⟩ := origin_of_recalculate_error hkept hr
    · rw [hdata] at hraw
      obtain ⟨n, rfl⟩ := int_of_dataOfInts hraw
      cases hv
    · rw [hev] at htext
      cases htext
      cases hv

/-- A column of data, a column that reads it, and one more. -/
def threeColumns (third : Column) : List Column :=
  [.ofParts "A" .data "a" "" .none, .ofParts "B" .calculated "b" "#A# + 1" .none, third]

theorem reached_in_threeColumns {third : Column} (hname : third.name ≠ "A") {j : Nat}
    (h : ReflTransGen (ReadsFrom (threeColumns third)) 1 j) : j = 1 ∨ j = 0 := by
  induction h with
  | refl => exact Or.inl rfl
  | tail _ hstep ih =>
    obtain ⟨c, name, hc, hcalc, hread, hs⟩ := hstep
    rcases ih with rfl | rfl
    · have hreads : c.reads = ["A"] := by
        cases hc
        decide +kernel
      rw [hreads, List.mem_singleton] at hread
      subst hread
      have hpos : (lastPositions (threeColumns third)).get? "A" = some 0 := by
        simp [lastPositions, threeColumns, Column.ofParts, OrderedMap.ofList,
          OrderedMap.get?_insert, hname]
      rw [← get?_lastPositions, hpos, Option.some.injEq] at hs
      exact Or.inr hs.symm
    · cases hc
      cases hcalc

/-- Data that is read from, and data that is not. -/
def plainColumns : List Column := threeColumns (.ofParts "X" .data "x" "" .none)

/-- The column that is not read from refers to itself. -/
def cyclicColumns : List Column := threeColumns (.ofParts "X" .calculated "x" "#X#" .none)

/-- A new table, recalculated. -/
def echoed (data : RawData) (columns : List Column) : Recalculated :=
  ((ofData data .dependency echoing).append columns).recalculate

/-! ## The law -/

/-- A cell depends on nothing but the columns that are reached from its own
by references, and the raw values that they have in its row. Two new tables
whose columns have the same names, and that agree in the types, expressions
and raw values of these columns, show the same in the cell and have the same
outcome there once they are recalculated. A recalculation can only stop at a
value of its data or of the engine that has no text. -/
theorem cell_depends_on_reads [Reductions] (data data' : RawData) (ev : Evaluator)
    (columns columns' : List Column) (i : Nat) (row : Int)
    (hnames : columns'.map Column.name = columns.map Column.name)
    (hsame : ∀ j, ReflTransGen (ReadsFrom columns) i j →
      SameRule columns columns' j ∧ rawValue? data' j row = rawValue? data j row)
    (hrow : row ≤ ((ofData data .dependency ev).append columns).recalculate.table.lastRow)
    (hrow' : row ≤ ((ofData data' .dependency ev).append columns').recalculate.table.lastRow) :
    let new := ((ofData data .dependency ev).append columns).recalculate
    let new' := ((ofData data' .dependency ev).append columns').recalculate
    (∀ report report', new.report = .ok report → new'.report = .ok report' →
      new'.table.cell row i = new.table.cell row i ∧
        new'.table.outcome row i = new.table.outcome row i) ∧
    (∀ f, new.report = .error f →
      ∃ v, v.display = .error f ∧ (RawValue data v ∨ ∃ text, ev.engine text = .ok v)) ∧
    ∀ f, new'.report = .error f →
      ∃ v, v.display = .error f ∧ (RawValue data' v ∨ ∃ text, ev.engine text = .ok v) := by
  have hinputs := sameInputs_new data data' ev hnames hsame
  have hkept : Kept ((ofData data .dependency ev).append columns) :=
    (kept_ofData data .dependency ev).append columns
  have hkept' : Kept ((ofData data' .dependency ev).append columns') :=
    (kept_ofData data' .dependency ev).append columns'
  have hboth : SameNames ((ofData data .dependency ev).append columns).bindData
      ((ofData data' .dependency ev).append columns').bindData := by
    refine ⟨rfl, rfl, rfl, ?_⟩
    rw [names_bindData_new, names_bindData_new, hnames]
  refine ⟨?_, fun f hr => origin_of_recalculate_error hkept hr,
    fun f hr => origin_of_recalculate_error hkept' hr⟩
  generalize (ofData data .dependency ev).append columns = t at *
  generalize (ofData data' .dependency ev).append columns' = t' at *
  intro report report' hr hr'
  obtain ⟨hdone, -, he⟩ := pass_of_report hr
  obtain ⟨hdone', -, he'⟩ := pass_of_report hr'
  have hrows : row ∈ t'.bindData.rowIndices ↔ row ∈ t.bindData.rowIndices := by
    rw [(frame_recalculate _).lastRow] at hrow hrow'
    rw [mem_rowIndices, mem_rowIndices]
    omega
  have hstored := hinputs.stored_pass hboth hrows hdone hdone'
  apply cell_eq_of_stored ?_ hrow hrow'
  rw [he, he']
  exact hstored

section

attribute [local instance] Reductions.fromLeft

/-- Beside a column that refers to itself, in a longer table with another
first row, the second row of a sum is as it was. -/
theorem sum_beside_a_cycle :
    (echoed (dataOfInts [2, 5, 7]) cyclicColumns).table.cell 1 (1 : Nat) =
        (echoed (dataOfInts [1, 5]) plainColumns).table.cell 1 (1 : Nat) ∧
      (echoed (dataOfInts [2, 5, 7]) cyclicColumns).table.outcome 1 (1 : Nat) =
        (echoed (dataOfInts [1, 5]) plainColumns).table.outcome 1 (1 : Nat) := by
  have hreads : ∀ j, ReflTransGen (ReadsFrom plainColumns) 1 j →
      SameRule plainColumns cyclicColumns j ∧
        rawValue? (dataOfInts [2, 5, 7]) j 1 = rawValue? (dataOfInts [1, 5]) j 1 := by
    intro j hj
    rcases reached_in_threeColumns (by decide) hj with rfl | rfl
    · exact ⟨rfl, rfl⟩
    · exact ⟨rfl, rfl⟩
  have hrow : (1 : Int) ≤ (echoed (dataOfInts [1, 5]) plainColumns).table.lastRow := by
    unfold echoed
    rw [(frame_recalculate _).lastRow]
    decide
  have hrow' : (1 : Int) ≤ (echoed (dataOfInts [2, 5, 7]) cyclicColumns).table.lastRow := by
    unfold echoed
    rw [(frame_recalculate _).lastRow]
    decide
  obtain ⟨hsame, -, -⟩ := cell_depends_on_reads (dataOfInts [1, 5]) (dataOfInts [2, 5, 7])
    echoing plainColumns cyclicColumns 1 1 rfl hreads hrow hrow'
  have hkept := fun data => kept_ofData data .dependency echoing
  obtain ⟨report, hreport⟩ := exists_report_of_echoing
    ((hkept (dataOfInts [1, 5])).append plainColumns) rfl rfl
  obtain ⟨report', hreport'⟩ := exists_report_of_echoing
    ((hkept (dataOfInts [2, 5, 7])).append cyclicColumns) rfl rfl
  exact hsame report report' hreport hreport'

end

end Table

end Worksheet
