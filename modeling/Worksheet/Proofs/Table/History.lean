-- The states that a table can get into. Columns are added and replaced, and
-- the table is recalculated, in any order. Each change keeps the invariant
-- `Kept`: rows stay within the data, and only cells of calculated columns
-- fail.
import Worksheet.Proofs.Table.Pass

namespace Worksheet.Table

/-! ## Changes -/

/-- A change of a table. -/
inductive Change where
  | append (columns : List Column)
  | replace (old : String) (column : Column)
  | recalculate

/-- The table after a change. To replace a column that is not there changes
nothing. -/
def change (t : Table) : Change → Table
  | .append columns => t.append columns
  | .replace old column =>
    match t.replace old column with
    | .ok t' => t'
    | .error _ => t
  | .recalculate => t.recalculate.table

/-- The table after some changes, from the first to the last. -/
def after (t : Table) (changes : List Change) : Table := changes.foldl change t

theorem after_snoc (t : Table) (changes : List Change) (ch : Change) :
    t.after (changes ++ [ch]) = (t.after changes).change ch := by
  simp [after, List.foldl_append]

/-! ## The last row -/

theorem largest_le_iff (l : List Nat) (m : Nat) : largest l ≤ m ↔ ∀ n ∈ l, n ≤ m := by
  have hstart : ∀ a, l.foldl max a ≤ m ↔ a ≤ m ∧ ∀ n ∈ l, n ≤ m := by
    induction l with
    | nil => simp
    | cons n rest ih =>
      intro a
      rw [List.foldl_cons, ih, Nat.max_le, List.forall_mem_cons, and_assoc]
  unfold largest
  rw [hstart]
  simp

/-- The last row of the data that is bound to one position. -/
theorem boundLastRow_le_iff (t : Table) (m : Nat) :
    t.boundLastRow ≤ m ↔
      ∀ i rows, i < t.columns.length → t.data.get? i = some rows → ∀ n ∈ rows.keys, n ≤ m := by
  unfold boundLastRow
  rw [largest_le_iff, List.forall_mem_map]
  constructor
  · intro h i rows hi hrows
    have := h i (List.mem_range.mpr hi)
    rw [hrows] at this
    exact (largest_le_iff _ _).mp this
  · intro h i hi
    cases hrows : t.data.get? i with
    | none => exact Nat.zero_le m
    | some rows => exact (largest_le_iff _ _).mpr (h i rows (List.mem_range.mp hi) hrows)

/-- More columns bind no less data. -/
theorem boundLastRow_mono {t t' : Table} (hdata : t'.data = t.data)
    (hlen : t.columns.length ≤ t'.columns.length) : t.boundLastRow ≤ t'.boundLastRow := by
  rw [boundLastRow_le_iff]
  intro i rows hi hrows
  exact (boundLastRow_le_iff t' _).mp (Nat.le_refl _) i rows (Nat.lt_of_lt_of_le hi hlen)
    (hdata ▸ hrows)

theorem length_shape (t : Table) : t.shape.length = t.columns.length := List.length_map _

theorem SameFrame.boundLastRow {t t' : Table} (h : SameFrame t t') :
    t'.boundLastRow = t.boundLastRow := by
  have hlen : t'.columns.length = t.columns.length := by
    rw [← length_shape, h.shape, length_shape]
  exact Nat.le_antisymm (boundLastRow_mono h.data.symm (Nat.le_of_eq hlen))
    (boundLastRow_mono h.data (Nat.le_of_eq hlen.symm))

theorem mem_rowIndices (t : Table) (row : Int) :
    row ∈ t.rowIndices ↔ 0 ≤ row ∧ row ≤ t.lastRow := by
  unfold rowIndices
  simp only [List.mem_map, List.mem_range, Int.ofNat_eq_natCast]
  constructor
  · rintro ⟨n, hn, rfl⟩
    omega
  · rintro ⟨h0, hle⟩
    exact ⟨row.toNat, by omega, by omega⟩

/-! ## The invariant -/

/-- The value stands in the data. -/
def RawValue (data : RawData) (v : Value) : Prop :=
  ∃ i rows, data.get? i = some rows ∧ v ∈ rows.values

/-- What a row of a column may hold. -/
structure RowKept (t : Table) (c : Column) (row : Int) : Prop where
  range : ∀ v, c.rows.get? row = some v → 0 ≤ row ∧ row ≤ t.lastRow
  origin : ∀ v, c.rows.get? row = some v → (∃ s, v = .text s) ∨ RawValue t.data v
  failed : ∀ f, c.failures.get? row = some f →
    c.isCalculated = true ∧ c.rows.get? row = some (.text failedText)

/-- Every row of every column is kept, and the last row is one of the data. -/
structure Kept (t : Table) : Prop where
  rows : ∀ (i : Nat) (c : Column), t.columns[i]? = some c → ∀ row, RowKept t c row
  lastRow_le : t.lastRow ≤ t.boundLastRow

theorem rowKept_of_stored {t t' : Table} {c c' : Column} {row : Int} (h : RowKept t c row)
    (hs : c'.stored row = c.stored row) (hcalc : c'.isCalculated = c.isCalculated)
    (hdata : t'.data = t.data) (hlast : t.lastRow ≤ t'.lastRow) : RowKept t' c' row := by
  obtain ⟨hrows, hfailures⟩ := Prod.mk.inj hs
  refine ⟨fun v hv => ?_, fun v hv => ?_, fun f hf => ?_⟩
  · have := h.range v (hrows ▸ hv)
    omega
  · exact hdata ▸ h.origin v (hrows ▸ hv)
  · obtain ⟨hc, hr⟩ := h.failed f (hfailures ▸ hf)
    exact ⟨hcalc.trans hc, hrows.trans hr⟩

theorem rowKept_withoutRows (t : Table) (c : Column) (row : Int) :
    RowKept t c.withoutRows row := by
  refine ⟨fun v hv => ?_, fun v hv => ?_, fun f hf => ?_⟩
  · simp [Column.withoutRows, Column.ofParts] at hv
  · simp [Column.withoutRows, Column.ofParts] at hv
  · simp [Column.withoutRows, Column.ofParts] at hf

/-- An outcome in a row of a calculated column keeps the invariant. -/
theorem rowKept_of_holds {t : Table} {c : Column} {row : Int} {result : Outcome}
    (h : c.Holds row result) (hcalc : c.isCalculated = true) (hrow : row ∈ t.rowIndices) :
    RowKept t c row := by
  obtain ⟨text, hd, hr⟩ := h.shown
  refine ⟨fun v _ => (mem_rowIndices t row).mp hrow, fun v hv => ?_, fun f hf => ?_⟩
  · rw [hr, Option.some.injEq] at hv
    exact Or.inl ⟨text, hv.symm⟩
  · refine ⟨hcalc, ?_⟩
    rw [h.failure] at hf
    cases result with
    | value v => cases hf
    | failure g =>
      cases hd
      exact hr

/-- The invariant after writes to cells of calculated columns within the
rows of the table. -/
theorem Kept.of_cells {t t' : Table} (h : Kept t) (hframe : SameFrame t t')
    (hcells : ∀ i row, t'.stored i row = t.stored i row ∨
      i ∈ t.calculatedPositions ∧ row ∈ t.rowIndices ∧ ∃ result, t'.Holds i row result) :
    Kept t' := by
  have hlast : t.lastRow ≤ t'.lastRow := Nat.le_of_eq hframe.lastRow.symm
  refine ⟨fun i c hc row => ?_, ?_⟩
  · obtain ⟨d, hd, hsame⟩ := exists_of_shape_eq hframe.shape hc
    have hcalc := Column.isCalculated_eq_of_withoutRows hsame.symm
    rcases hcells i row with hs | ⟨hi, hrow, result, c', hc', hholds⟩
    · unfold stored at hs
      rw [hc, hd, Option.map_some, Option.map_some, Option.some.injEq] at hs
      exact rowKept_of_stored (h.rows i d hd row) hs hcalc hframe.data hlast
    · rw [hc, Option.some.injEq] at hc'
      subst hc'
      obtain ⟨e, he, hecalc⟩ := (mem_calculatedPositions t i).mp hi
      rw [hd, Option.some.injEq] at he
      subst he
      have hrows : t'.rowIndices = t.rowIndices := by
        unfold rowIndices
        rw [hframe.lastRow]
      exact rowKept_of_holds hholds (hcalc.trans hecalc) (hrows ▸ hrow)
  · rw [hframe.lastRow, hframe.boundLastRow]
    exact h.lastRow_le

/-! ## New tables and new columns -/

theorem kept_ofData (data : RawData) (schedule : Schedule) (ev : Evaluator) :
    Kept (ofData data schedule ev) := by
  refine ⟨fun i c hc => ?_, Nat.zero_le _⟩
  simp [ofData] at hc

theorem Kept.append {t : Table} (h : Kept t) (columns : List Column) :
    Kept (t.append columns) := by
  refine ⟨fun i c hc row => ?_, ?_⟩
  · unfold Table.append at hc
    dsimp only at hc
    rcases Nat.lt_or_ge i t.columns.length with hlt | hge
    · rw [List.getElem?_append_left hlt] at hc
      exact rowKept_of_stored (h.rows i c hc row) rfl rfl rfl (Nat.le_refl _)
    · rw [List.getElem?_append_right hge, List.getElem?_map, Option.map_eq_some_iff] at hc
      obtain ⟨d, -, rfl⟩ := hc
      exact rowKept_withoutRows _ d row
  · refine Nat.le_trans h.lastRow_le (boundLastRow_mono rfl ?_)
    simp [Table.append]

theorem Kept.replace {t t' : Table} (h : Kept t) {old : String} {column : Column}
    (hr : t.replace old column = .ok t') : Kept t' := by
  unfold Table.replace at hr
  cases hp : t.position old with
  | error f =>
    rw [hp] at hr
    cases hr
  | ok k =>
    rw [hp] at hr
    cases hr
    refine ⟨fun i c hc row => ?_, ?_⟩
    · by_cases hik : i = k
      · subst hik
        unfold setColumn at hc
        simp only [List.getElem?_set_self', Option.map_eq_map, Option.map_eq_some_iff] at hc
        obtain ⟨d, -, rfl⟩ := hc
        exact rowKept_withoutRows _ column row
      · rw [getElem?_setColumn_ne _ hik] at hc
        exact rowKept_of_stored (h.rows i c hc row) rfl rfl rfl (Nat.le_refl _)
    · refine Nat.le_trans h.lastRow_le (boundLastRow_mono rfl ?_)
      simp [setColumn]

/-! ## Binding the data -/

theorem bindRaw_withoutRows (data : RawData) (c : Column) (i : Nat) :
    (bindRaw data c i).withoutRows = c.withoutRows := by
  unfold bindRaw
  cases data.get? i with
  | none => rfl
  | some rows => rfl

theorem getElem?_bindData (t : Table) (i : Nat) :
    t.bindData.columns[i]? = t.columns[i]?.map fun c => bindRaw t.data c i := by
  unfold bindData
  simp [List.getElem?_map, List.getElem?_zipIdx, Function.comp_def]

/-- To bind the data gives columns other rows, and leaves them as they are
apart from that. -/
theorem shape_bindData (t : Table) : t.bindData.shape = t.shape := by
  apply List.ext_getElem?
  intro i
  rw [getElem?_shape, getElem?_shape, getElem?_bindData]
  cases t.columns[i]? with
  | none => rfl
  | some c =>
    rw [Option.map_some, Option.map_some, bindRaw_withoutRows]
    rfl

theorem boundLastRow_bindData (t : Table) : t.bindData.boundLastRow = t.boundLastRow := by
  have hlen : t.bindData.columns.length = t.columns.length := by
    rw [← length_shape, shape_bindData, length_shape]
  exact Nat.le_antisymm (boundLastRow_mono rfl (Nat.le_of_eq hlen))
    (boundLastRow_mono rfl (Nat.le_of_eq hlen.symm))

/-- A row of a column that took its raw rows. -/
theorem mem_of_get?_withRows {c : Column} {rows : OrderedMap Nat Value} {row : Int} {v : Value}
    (h : (c.withRows rows.entries).rows.get? row = some v) :
    ∃ n : Nat, row = n ∧ n ∈ rows.keys ∧ v ∈ rows.values := by
  have hmem := OrderedMap.mem_of_get?_ofList h
  simp only [List.mem_map, Prod.mk.injEq] at hmem
  obtain ⟨p, hp, rfl, rfl⟩ := hmem
  exact ⟨p.1, rfl, List.mem_map_of_mem hp, List.mem_map_of_mem hp⟩

theorem Kept.bindData {t : Table} (h : Kept t) : Kept t.bindData := by
  refine ⟨fun i c hc row => ?_, ?_⟩
  · rw [getElem?_bindData, Option.map_eq_some_iff] at hc
    obtain ⟨d, hd, rfl⟩ := hc
    unfold bindRaw
    cases hraw : t.data.get? i with
    | none =>
      have hkept := h.rows i d hd row
      exact rowKept_of_stored hkept rfl rfl rfl h.lastRow_le
    | some rows =>
      refine ⟨fun v hv => ?_, fun v hv => ?_, fun f hf => ?_⟩
      · obtain ⟨n, rfl, hn, -⟩ := mem_of_get?_withRows hv
        have hi := (List.getElem?_eq_some_iff.mp hd).1
        have hle := (boundLastRow_le_iff t _).mp (Nat.le_refl _) i rows hi hraw n hn
        have hlast : t.bindData.lastRow = t.boundLastRow := rfl
        omega
      · obtain ⟨n, -, -, hv'⟩ := mem_of_get?_withRows hv
        exact Or.inr ⟨i, rows, hraw, hv'⟩
      · simp [Column.withRows] at hf
  · rw [boundLastRow_bindData]
    exact Nat.le_refl _

/-! ## Recalculation -/

/-- The invariant holds at every turn of a pass. -/
theorem Kept.turns {t : Table} (h : Kept t) (failed : Nat) {cells : List (Nat × Int)}
    (hcells : ∀ cell ∈ cells, cell ∈ t.cellsToDo) :
    Kept (cells.foldl Progress.step ⟨t.blockedFailed, failed, none⟩).table := by
  obtain ⟨hframe, hwritten⟩ := foldl_step_blockedFailed_spec t failed hcells
  exact h.of_cells hframe hwritten

theorem Kept.recalculate {t : Table} (h : Kept t) : Kept t.recalculate.table := by
  obtain ⟨⟨report?, he⟩, -⟩ := t.recalculate_eq
  have hpass : Kept t.bindData.pass.table := h.bindData.turns _ fun _ hcell => hcell
  rw [he]
  exact ⟨fun i c hc row => rowKept_of_stored (hpass.rows i c hc row) rfl rfl rfl (Nat.le_refl _),
    hpass.lastRow_le⟩

/-! ## All states -/

theorem Kept.change {t : Table} (h : Kept t) (ch : Change) : Kept (t.change ch) := by
  cases ch with
  | append columns => exact h.append columns
  | replace old column =>
    unfold Table.change
    dsimp only
    cases hr : t.replace old column with
    | ok t' => exact h.replace hr
    | error f => exact h
  | recalculate => exact h.recalculate

/-- What a table has from its beginning is not changed. -/
theorem change_fixed (t : Table) (ch : Change) :
    (t.change ch).data = t.data ∧ (t.change ch).schedule = t.schedule ∧
      (t.change ch).evaluator = t.evaluator := by
  cases ch with
  | append columns => exact ⟨rfl, rfl, rfl⟩
  | replace old column =>
    unfold Table.change Table.replace
    dsimp only
    cases t.position old with
    | ok i => exact ⟨rfl, rfl, rfl⟩
    | error f => exact ⟨rfl, rfl, rfl⟩
  | recalculate =>
    have hframe := t.frame_recalculate
    exact ⟨hframe.data, hframe.schedule, hframe.evaluator⟩

/-- Every state of a table over the data is kept. -/
theorem after_spec (data : RawData) (schedule : Schedule) (ev : Evaluator)
    (changes : List Change) :
    let t := (ofData data schedule ev).after changes
    Kept t ∧ t.data = data ∧ t.schedule = schedule ∧ t.evaluator = ev := by
  induction changes using List.reverseRecOn with
  | nil => exact ⟨kept_ofData data schedule ev, rfl, rfl, rfl⟩
  | append_singleton changes ch ih =>
    obtain ⟨hkept, hdata, hschedule, hev⟩ := ih
    obtain ⟨hdata', hschedule', hev'⟩ := change_fixed ((ofData data schedule ev).after changes) ch
    rw [after_snoc]
    exact ⟨hkept.change ch, hdata'.trans hdata, hschedule'.trans hschedule, hev'.trans hev⟩

end Worksheet.Table
