-- The laws of a recalculation. They hold for every state of a table that
-- adding, replacing and recalculating columns can lead to. A recalculation
-- comes to its end unless some value has no text; then every cell of a
-- calculated column agrees with what the columns that it reads show, or
-- fails because a cycle of references is reached from it.
import Worksheet.Proofs.Summary.Alike
import Worksheet.Proofs.Table.History

open Relation

namespace Worksheet

/-! ## Results through a function -/

theorem exists_of_map_eq_ok {ε α β : Type} {f : α → β} {x : Except ε α} {b : β}
    (h : x.map f = .ok b) : ∃ a, x = .ok a ∧ f a = b := by
  cases x with
  | error e => cases h
  | ok a =>
    cases h
    exact ⟨a, rfl, rfl⟩

theorem eq_error_of_map {ε α β : Type} {f : α → β} {x : Except ε α} {e : ε}
    (h : x.map f = .error e) : x = .error e := by
  cases x with
  | error e' =>
    cases h
    rfl
  | ok a => cases h

/-! ## Outcomes of an expression -/

/-- No expression fails for a cycle. -/
theorem Evaluator.evaluate_failure_kind {ev : Evaluator} {expression : String}
    {vars : Variables} {f : Failure} (h : ev.evaluate expression vars = .ok (.failure f)) :
    f.kind ≠ .circularReference := by
  unfold Evaluator.evaluate at h
  split at h
  · rename_i text _
    rw [Except.ok.injEq] at h
    unfold Evaluator.evaluateText at h
    split at h
    · cases h
      simp
    · split at h
      · cases h
        simp
      · cases h
        simp
      · cases h
  · cases h
    simp
  · cases h

/-- The value of an expression is one that the engine gave. -/
theorem Evaluator.exists_engine_of_evaluate {ev : Evaluator} {expression : String}
    {vars : Variables} {v : Value} (h : ev.evaluate expression vars = .ok (.value v)) :
    ∃ text, ev.engine text = .ok v := by
  unfold Evaluator.evaluate at h
  split at h
  · rename_i text _
    rw [Except.ok.injEq] at h
    unfold Evaluator.evaluateText at h
    split at h
    · cases h
    · split at h
      · cases h
      · cases h
      · rename_i w _ hw
        cases h
        exact ⟨text, hw⟩
  · cases h
  · cases h

/-- With texts for names, a piece faults only for a name without a text. -/
theorem Piece.unresolved_of_text {vars : Variables} {f : Fault}
    (hvars : ∀ name v, vars.get? name = some v → ∃ s, v = .text s) {p : Piece}
    (h : p.text vars = .error f) : ∃ name, f = .unresolvedVariable name := by
  cases p with
  | plain c => cases h
  | reference name =>
    unfold Piece.text resolve at h
    dsimp only at h
    cases hv : vars.get? (String.ofList name) with
    | none =>
      rw [hv] at h
      cases h
      exact ⟨_, rfl⟩
    | some v =>
      obtain ⟨s, rfl⟩ := hvars _ v hv
      simp only [hv, Value.display] at h
      split at h
      · cases h
        exact ⟨_, rfl⟩
      · cases h

/-- With texts for names, the only fault of a substitution is a name
without a text. -/
theorem unresolved_of_fillPieces {vars : Variables} {f : Fault}
    (hvars : ∀ name v, vars.get? name = some v → ∃ s, v = .text s) (pieces : List Piece)
    (h : fillPieces vars pieces = .error f) : ∃ name, f = .unresolvedVariable name := by
  induction pieces with
  | nil => cases h
  | cons p rest ih =>
    rw [fillPieces] at h
    split at h
    · rename_i g hp
      cases h
      exact Piece.unresolved_of_text hvars hp
    · split at h
      · rename_i g hr
        cases h
        exact ih hr
      · cases h

/-- With texts for names, an expression always has an outcome. -/
theorem Evaluator.evaluate_ne_error {vars : Variables}
    (hvars : ∀ name v, vars.get? name = some v → ∃ s, v = .text s) (ev : Evaluator)
    (expression : String) (f : Fault) : ev.evaluate expression vars ≠ .error f := by
  intro h
  unfold Evaluator.evaluate at h
  split at h
  · cases h
  · cases h
  · rename_i g hne hs
    obtain ⟨name, hk⟩ := unresolved_of_fillPieces hvars _ (eq_error_of_map hs)
    exact hne name hk

namespace Table

/-! ## Variables and cells -/

/-- The variables of a row: each name that the column reads and that stands
for a column, with the text that this column shows in the row. -/
def Binds [Reductions] (t : Table) (row : Int) (c : Column) (vars : Variables) : Prop :=
  ∀ name v, vars.get? name = some v ↔ name ∈ c.reads ∧
    ∃ (i : Nat) (text : String), StandsFor t.columns name i ∧
      t.cell row i = .ok (.text text) ∧ v = .text text

/-- The first name stands for no column and is left out, or it is bound to
the text that its column shows in the row. -/
theorem readNames_cons_eq_ok {t : Table} {row : Int} {first : String} {rest : List String}
    {shown : List (String × Value)} (h : t.readNames row (first :: rest) = .ok shown) :
    ((∀ i, ¬ StandsFor t.columns first i) ∧ t.readNames row rest = .ok shown) ∨
      ∃ i c text others, StandsFor t.columns first i ∧ t.columns[i]? = some c ∧
        c.textAt row = .ok text ∧ t.readNames row rest = .ok others ∧
        (first, Value.text text) :: others = shown := by
  rw [readNames] at h
  split at h
  · rename_i hnone
    refine Or.inl ⟨fun i hi => ?_, h⟩
    obtain ⟨c, hc, -, -⟩ := id hi
    rw [(position?_eq_some_iff t first i).mpr hi, Option.bind_some, hc] at hnone
    cases hnone
  · rename_i c hsome
    rw [Option.bind_eq_some_iff] at hsome
    obtain ⟨i, hpos, hc⟩ := hsome
    split at h
    · cases h
    · rename_i text htext
      obtain ⟨others, hothers, he⟩ := exists_of_map_eq_ok h
      exact Or.inr ⟨i, c, text, others, (position?_eq_some_iff t first i).mp hpos, hc, htext,
        hothers, he⟩

/-- A fault comes from the column of the first name or from a later name. -/
theorem readNames_cons_eq_error {t : Table} {row : Int} {first : String} {rest : List String}
    {f : Fault} (h : t.readNames row (first :: rest) = .error f) :
    t.readNames row rest = .error f ∨
      ∃ (i : Nat) (c : Column), t.columns[i]? = some c ∧ c.textAt row = .error f := by
  rw [readNames] at h
  split at h
  · exact Or.inl h
  · rename_i c hsome
    rw [Option.bind_eq_some_iff] at hsome
    obtain ⟨i, -, hc⟩ := hsome
    split at h
    · rename_i g htext
      cases h
      exact Or.inr ⟨i, c, hc, htext⟩
    · exact Or.inl (eq_error_of_map h)

/-- What the names of a list show in a row. -/
theorem mem_of_readNames [Reductions] {t : Table} {row : Int} (hrow : row ≤ t.lastRow)
    {names : List String} {shown : List (String × Value)}
    (h : t.readNames row names = .ok shown) (name : String) (v : Value) :
    (name, v) ∈ shown ↔ name ∈ names ∧
      ∃ (i : Nat) (text : String), StandsFor t.columns name i ∧
        t.cell row i = .ok (.text text) ∧ v = .text text := by
  induction names generalizing shown with
  | nil =>
    cases h
    simp
  | cons first rest ih =>
    rcases readNames_cons_eq_ok h with
      ⟨hno, hrest⟩ | ⟨i, c, text, others, hs, hc, htext, hrest, rfl⟩
    · rw [ih hrest, List.mem_cons]
      constructor
      · rintro ⟨hmem, hshows⟩
        exact ⟨Or.inr hmem, hshows⟩
      · rintro ⟨rfl | hmem, i, text, hs, hshows⟩
        · exact absurd hs (hno i)
        · exact ⟨hmem, i, text, hs, hshows⟩
    · have hcell : t.cell row i = .ok (.text text) := by
        rw [cell_eq hc hrow, htext]
        rfl
      rw [List.mem_cons, ih hrest, List.mem_cons, Prod.mk.injEq]
      constructor
      · rintro (⟨rfl, rfl⟩ | ⟨hmem, hshows⟩)
        · exact ⟨Or.inl rfl, i, text, hs, hcell, rfl⟩
        · exact ⟨Or.inr hmem, hshows⟩
      · rintro ⟨rfl | hmem, j, text', hj, hcell', rfl⟩
        · -- a name stands for one column
          rw [← position?_eq_some_iff] at hs hj
          rw [hs, Option.some.injEq] at hj
          subst hj
          rw [hcell] at hcell'
          cases hcell'
          exact Or.inl ⟨rfl, rfl⟩
        · exact Or.inr ⟨hmem, j, text', hj, hcell', rfl⟩

theorem origin_of_textAt_error {c : Column} {row : Int} {f : Fault}
    (h : c.textAt row = .error f) : ∃ v, c.rows.get? row = some v ∧ v.display = .error f := by
  unfold Column.textAt at h
  cases hv : c.rows.get? row with
  | none =>
    rw [hv] at h
    cases h
  | some v =>
    rw [hv] at h
    exact ⟨v, rfl, h⟩

/-- What a column shows has no text when the value of its row has none. -/
theorem origin_of_readNames_error {t : Table} {row : Int} {names : List String} {f : Fault}
    (h : t.readNames row names = .error f) :
    ∃ (j : Nat) (c : Column) (v : Value), t.columns[j]? = some c ∧
      c.rows.get? row = some v ∧ v.display = .error f := by
  induction names with
  | nil => cases h
  | cons first rest ih =>
    rcases readNames_cons_eq_error h with hrest | ⟨j, c, hc, htext⟩
    · exact ih hrest
    · obtain ⟨v, hv, hdisplay⟩ := origin_of_textAt_error htext
      exact ⟨j, c, v, hc, hv, hdisplay⟩

/-- All variables are texts. -/
theorem texts_of_readNames {t : Table} {row : Int} {names : List String}
    {shown : List (String × Value)} (h : t.readNames row names = .ok shown) :
    ∀ p ∈ shown, ∃ s, p.2 = .text s := by
  induction names generalizing shown with
  | nil =>
    cases h
    simp
  | cons first rest ih =>
    rcases readNames_cons_eq_ok h with ⟨-, hrest⟩ | ⟨i, c, text, others, -, -, -, hrest, rfl⟩
    · exact ih hrest
    · rw [List.forall_mem_cons]
      exact ⟨⟨text, rfl⟩, ih hrest⟩

theorem texts_of_variablesAt {t : Table} {row : Int} {c : Column} {vars : Variables}
    (h : t.variablesAt row c = .ok vars) (name : String) (v : Value)
    (hv : vars.get? name = some v) : ∃ s, v = .text s := by
  obtain ⟨shown, hshown, rfl⟩ := exists_of_map_eq_ok h
  exact texts_of_readNames hshown _ (OrderedMap.mem_of_get?_ofList hv)

theorem binds_of_variablesAt [Reductions] {t : Table} {row : Int} {c : Column}
    {vars : Variables} (hrow : row ≤ t.lastRow) (h : t.variablesAt row c = .ok vars) :
    t.Binds row c vars := by
  obtain ⟨shown, hshown, rfl⟩ := exists_of_map_eq_ok h
  have hmem := mem_of_readNames hrow hshown
  intro name v
  rw [OrderedMap.get?_ofList ?_, hmem]
  intro k v w hv hw
  obtain ⟨-, i, text, hi, hcell, rfl⟩ := (hmem k v).mp hv
  obtain ⟨-, j, text', hj, hcell', rfl⟩ := (hmem k w).mp hw
  rw [← position?_eq_some_iff] at hi hj
  rw [hi, Option.some.injEq] at hj
  subst hj
  rw [hcell] at hcell'
  cases hcell'
  rfl

/-- The cell shows what its expression gives, and has the same failure, with
each name bound to what its column shows in the row. -/
def AgreesWithReads [Reductions] (t : Table) (i : Nat) (row : Int) : Prop :=
  ∃ c vars result text o, t.columns[i]? = some c ∧ t.Binds row c vars ∧
    t.evaluator.evaluate c.expression vars = .ok result ∧
    result.display = .ok text ∧ t.cell row i = .ok (.text text) ∧
    t.outcome row i = .ok o ∧ o.failure? = result.failure?

theorem FromReferences.agrees [Reductions] {t : Table} {i : Nat} {row : Int}
    (h : t.FromReferences i row) (hrow : row ≤ t.lastRow) : t.AgreesWithReads i row := by
  obtain ⟨c, vars, result, hc, hvars, heval, hholds⟩ := h
  obtain ⟨text, hd, hcell⟩ := hholds.cell hrow
  obtain ⟨o, ho, hf⟩ := hholds.outcome
  exact ⟨c, vars, result, text, o, hc, binds_of_variablesAt hrow hvars, heval, hd, hcell, ho, hf⟩

/-- The failure of a cell that agrees is not one for a cycle. -/
theorem AgreesWithReads.kind_ne [Reductions] {t : Table} {i : Nat} {row : Int}
    (h : t.AgreesWithReads i row) {f : Failure} (ho : t.outcome row i = .ok (.failure f)) :
    f.kind ≠ .circularReference := by
  obtain ⟨c, vars, result, text, o, -, -, heval, -, -, ho', hf⟩ := h
  rw [ho, Except.ok.injEq] at ho'
  subst ho'
  cases result with
  | value v => cases hf
  | failure g =>
    cases hf
    exact Evaluator.evaluate_failure_kind heval

/-! ## Faults -/

/-- A fault of a cell is that of a value without a text: one that a column
holds in the row, or one that the engine gave. -/
theorem origin_of_evaluateCell_error {t : Table} {i : Nat} {row : Int} {f : Fault}
    (h : t.evaluateCell i row = .error f) :
    ∃ v, v.display = .error f ∧
      ((∃ (j : Nat) (c : Column), t.columns[j]? = some c ∧ c.rows.get? row = some v) ∨
        ∃ text, t.evaluator.engine text = .ok v) := by
  unfold evaluateCell at h
  cases hc : t.columns[i]? with
  | none =>
    rw [hc] at h
    cases h
  | some c =>
    rw [hc] at h
    dsimp only at h
    cases hv : t.variablesAt row c with
    | error g =>
      rw [hv] at h
      cases h
      obtain ⟨j, d, v, hd, hrow, hdisplay⟩ := origin_of_readNames_error (eq_error_of_map hv)
      exact ⟨v, hdisplay, Or.inl ⟨j, d, hd, hrow⟩⟩
    | ok vars =>
      rw [hv] at h
      dsimp only at h
      unfold Column.evaluateRow at h
      cases he : t.evaluator.evaluate c.expression vars with
      | error g => exact absurd he (Evaluator.evaluate_ne_error (texts_of_variablesAt hv) _ _ g)
      | ok result =>
        rw [he] at h
        unfold Column.record at h
        cases hd : result.display with
        | ok text => simp only [hd, Except.map, reduceCtorEq] at h
        | error g =>
          simp only [hd, Except.map, Except.error.injEq] at h
          subst h
          cases result with
          | value v => exact ⟨v, hd, Or.inr (Evaluator.exists_engine_of_evaluate he)⟩
          | failure k => cases hd

/-- A fault ends a run of turns at one of its cells. -/
theorem exists_turn_of_fault {p : Progress} {cells : List (Nat × Int)} {f : Fault}
    (hstart : p.fault? = none) (h : (cells.foldl Progress.step p).fault? = some f) :
    ∃ before cell after, cells = before ++ cell :: after ∧
      (before.foldl Progress.step p).table.evaluateCell cell.1 cell.2 = .error f := by
  induction cells using List.reverseRecOn with
  | nil =>
    rw [List.foldl_nil, hstart] at h
    cases h
  | append_singleton cells cell ih =>
    rw [List.foldl_append, List.foldl_cons, List.foldl_nil] at h
    rcases step_cases (cells.foldl Progress.step p) cell with
      ⟨g, -, hs⟩ | ⟨g, he, hs⟩ | ⟨t, failed, -, -, hs⟩
    · rw [hs] at h
      obtain ⟨before, cell', after, rfl, he⟩ := ih h
      exact ⟨before, cell', after ++ [cell], by simp, he⟩
    · rw [hs] at h
      cases h
      exact ⟨cells, cell, [], rfl, he⟩
    · rw [hs] at h
      cases h

/-- A recalculation stops only at a value without a text. -/
theorem origin_of_recalculate_error {t : Table} (hkept : Kept t) {f : Fault}
    (h : t.recalculate.report = .error f) :
    ∃ v, v.display = .error f ∧
      (RawValue t.data v ∨ ∃ text, t.evaluator.engine text = .ok v) := by
  rw [(t.recalculate_eq).2 f] at h
  obtain ⟨before, cell, after, hsplit, he⟩ := exists_turn_of_fault rfl h
  have hcells : ∀ c ∈ before, c ∈ t.bindData.cellsToDo := by
    intro c hc
    rw [hsplit]
    exact List.mem_append_left _ hc
  obtain ⟨hframe, -⟩ := foldl_step_blockedFailed_spec t.bindData
    (t.bindData.plan.blocked.length * (t.bindData.lastRow + 1)) hcells
  have hturn := hkept.bindData.turns (t.bindData.plan.blocked.length *
    (t.bindData.lastRow + 1)) hcells
  obtain ⟨v, hv, hrow | ⟨text, htext⟩⟩ := origin_of_evaluateCell_error he
  · obtain ⟨j, c, hc, hrow⟩ := hrow
    refine ⟨v, hv, Or.inl ?_⟩
    rcases (hturn.rows j c hc cell.2).origin v hrow with ⟨s, rfl⟩ | hraw
    · cases hv
    · rw [hframe.data] at hraw
      exact hraw
  · rw [hframe.evaluator] at htext
    exact ⟨v, hv, Or.inr ⟨text, htext⟩⟩

/-! ## The laws -/

/-- A table as a recalculation leaves it. From the first row to the last, a
calculated column that reaches no cycle of references agrees with what it
reads, and one that reaches a cycle fails for it; no other cell has such a
failure. -/
structure UpToDate [Reductions] (t : Table) : Prop where
  agrees : ∀ (i : Nat) (c : Column), t.columns[i]? = some c → c.isCalculated = true →
    ¬ ReachesCycle (RefersTo t.columns) i →
    ∀ row : Int, 0 ≤ row → row ≤ t.lastRow → t.AgreesWithReads i row
  blocked : ∀ (i : Nat) (c : Column), t.columns[i]? = some c →
    ReachesCycle (RefersTo t.columns) i →
    ∀ row : Int, 0 ≤ row → row ≤ t.lastRow →
      t.cell row i = .ok (.text failedText) ∧
        t.outcome row i = .ok (.failure (cycleFailure c))
  only : ∀ (i : Nat) (row : Int) (f : Failure), t.outcome row i = .ok (.failure f) →
    f.kind = .circularReference →
    ReachesCycle (RefersTo t.columns) i ∧ 0 ≤ row ∧ row ≤ t.lastRow

/-- Up to date is a matter of the columns, the last row and the evaluator. -/
theorem UpToDate.withReport [Reductions] {t : Table} (h : UpToDate t) (report? : Option Report) :
    UpToDate { t with report? := report? } :=
  ⟨h.agrees, h.blocked, h.only⟩

/-- A cell that is left alone, and is not one of a calculated column within
the rows of the table, does not fail for a cycle. -/
theorem kind_ne_of_stored {t t' : Table} (hkept : Kept t) (hframe : SameFrame t t') {i : Nat}
    {row : Int} (hcell : ¬ (i ∈ t.calculatedPositions ∧ row ∈ t.rowIndices))
    (hstored : t'.stored i row = t.stored i row) {f : Failure}
    (hf : t'.outcome row i = .ok (.failure f)) : f.kind ≠ .circularReference := by
  cases hc : t'.columns[i]? with
  | none =>
    rw [outcome_eq_error hc] at hf
    cases hf
  | some c =>
    obtain ⟨d, hd, -⟩ := exists_of_shape_eq hframe.shape hc
    unfold stored at hstored
    rw [hc, hd, Option.map_some, Option.map_some, Option.some.injEq] at hstored
    obtain ⟨-, hfailures⟩ := Prod.mk.inj hstored
    rw [outcome_eq hc] at hf
    cases hfail : c.failures.get? row with
    | some g =>
      -- only cells of calculated columns have kept a failure
      rw [hfailures] at hfail
      obtain ⟨hcalc, hset⟩ := (hkept.rows i d hd row).failed g hfail
      refine absurd ⟨(mem_calculatedPositions t i).mpr ⟨d, hd, hcalc⟩, ?_⟩ hcell
      exact (mem_rowIndices t row).mpr ((hkept.rows i d hd row).range _ hset)
    | none =>
      cases hv : c.rows.get? row with
      | some v =>
        rw [Column.outcomeAt_eq_value hfail hv] at hf
        cases hf
      | none =>
        rw [Column.outcomeAt_eq_unset hfail hv] at hf
        split at hf
        · cases hf
          simp
        · cases hf

/-- A pass without a fault brings its table up to date. -/
theorem upToDate_pass [Reductions] {t : Table} (hkept : Kept t) (hs : t.schedule = .dependency)
    (hdone : t.pass.fault? = none) : UpToDate t.pass.table := by
  obtain ⟨hframe, hagrees, hblocked, hrest⟩ := pass_spec hs hdone
  have hrefers : RefersTo t.pass.table.columns = RefersTo t.columns :=
    refersTo_of_shape_eq hframe.shape
  have hrows : ∀ row : Int, row ∈ t.rowIndices ↔ 0 ≤ row ∧ row ≤ t.pass.table.lastRow := by
    intro row
    rw [mem_rowIndices, hframe.lastRow]
  have hin : ∀ (i : Nat) (c : Column), t.pass.table.columns[i]? = some c →
      c.isCalculated = true → i ∈ t.calculatedPositions :=
    fun _ _ => mem_calculatedPositions_of_shape_eq hframe.shape
  have hcells : ∀ i ∈ t.calculatedPositions, ¬ ReachesCycle (RefersTo t.columns) i →
      ∀ row ∈ t.rowIndices, t.pass.table.AgreesWithReads i row := by
    intro i hi hno row hrow
    have ho := (mem_order_iff_not_reachesCycle hs i).mpr ⟨hi, hno⟩
    exact (hagrees i ho row hrow).agrees ((hrows row).mp hrow).2
  refine ⟨fun i c hc hcalc hno row h0 hlast => ?_, fun i c hc hreach row h0 hlast => ?_,
    fun i row f hf hkind => ?_⟩
  · rw [hrefers] at hno
    exact hcells i (hin i c hc hcalc) hno row ((hrows row).mpr ⟨h0, hlast⟩)
  · rw [hrefers, ← mem_blocked_iff_reachesCycle hs] at hreach
    obtain ⟨d, hd, hsame⟩ := exists_of_shape_eq hframe.shape hc
    have hholds := hblocked i hreach d hd row ((hrows row).mpr ⟨h0, hlast⟩)
    rw [cycleFailure_of_withoutRows hsame] at hholds
    obtain ⟨text, hdisplay, hcell⟩ := hholds.cell hlast
    cases hdisplay
    obtain ⟨e, he, heholds⟩ := hholds
    refine ⟨hcell, ?_⟩
    rw [outcome_eq he, heholds.outcomeAt_failure]
  · rw [hrefers]
    by_cases hcell : i ∈ t.calculatedPositions ∧ row ∈ t.rowIndices
    · obtain ⟨hi, hrow⟩ := hcell
      refine ⟨?_, (hrows row).mp hrow⟩
      by_contra hno
      exact (hcells i hi hno row hrow).kind_ne hf hkind
    · exact absurd hkind (kind_ne_of_stored hkept hframe hcell (hrest i row hcell) hf)

/-- Whatever columns were added or replaced before, and however often the
table was recalculated: a recalculation by dependency brings the table up to
date, unless it stops at a value of the data or of the engine that has no
text. -/
theorem recalculation_brings_up_to_date [Reductions] (data : RawData) (ev : Evaluator)
    (changes : List Change) :
    let t := (ofData data .dependency ev).after changes
    match t.recalculate.report with
    | .error f =>
      ∃ v, v.display = .error f ∧ (RawValue data v ∨ ∃ text, ev.engine text = .ok v)
    | .ok _ => UpToDate t.recalculate.table := by
  obtain ⟨hkept, hdata, hschedule, hev⟩ := after_spec data .dependency ev changes
  generalize (ofData data .dependency ev).after changes = t at *
  subst hdata
  subst hev
  dsimp only
  cases hr : t.recalculate.report with
  | error f => exact origin_of_recalculate_error hkept hr
  | ok report =>
    obtain ⟨⟨report?, htable⟩, hfault⟩ := t.recalculate_eq
    have hdone : t.bindData.pass.fault? = none := by
      rw [Option.eq_none_iff_forall_ne_some]
      intro f hf
      rw [(hfault f).mpr hf] at hr
      cases hr
    rw [htable]
    exact (upToDate_pass hkept.bindData hschedule hdone).withReport report?

def fourAndFive : RawData := OrderedMap.ofList [(0, OrderedMap.ofList [(0, .int 4), (1, .int 5)])]

/-- A column of data and one that reads it, a column that refers to itself, and
one that reads from both. -/
def sumAndCycleColumns : List Column :=
  [.ofParts "A" .data "A" "" .none, .ofParts "B" .calculated "B" "#A# + 1" .none,
    .ofParts "C" .calculated "C" "#C#" .none, .ofParts "D" .calculated "D" "#B# * #C#" .none]

def sumAndCycle : Table :=
  (ofData fourAndFive .dependency .builtIn).after [.append sumAndCycleColumns]

theorem plan_sumAndCycle : sumAndCycle.bindData.plan = ⟨[1], [2, 3], [2]⟩ := by
  -- the sort of the blocked columns does not evaluate, but they are sorted
  have hblocked : sumAndCycle.bindData.graph.blocked = [2, 3] := by decide +kernel
  have hsorted : [2, 3].mergeSort (fun a b : Nat => decide (a ≤ b)) = [2, 3] :=
    List.mergeSort_of_pairwise (by decide)
  have hschedule : sumAndCycle.bindData.schedule = .dependency := rfl
  unfold plan
  rw [hschedule]
  dsimp only
  rw [hblocked, hsorted]
  decide +kernel

section

attribute [local instance] Reductions.fromLeft

/-- The recalculation comes to its end. The sums are there, and the column on
the cycle and the one that reads from it fail. -/
theorem sumAndCycle_up_to_date :
    sumAndCycle.recalculate.report = .ok ⟨1, 6, 4, ["C", "D"], "dependency"⟩ ∧
      sumAndCycle.recalculate.table.cell 1 1 = .ok (.text "6") ∧
      sumAndCycle.recalculate.table.cell 1 3 = .ok (.text failedText) ∧
      UpToDate sumAndCycle.recalculate.table := by
  obtain ⟨hreport, hsum, hfailed⟩ :
      sumAndCycle.recalculate.report = .ok ⟨1, 6, 4, ["C", "D"], "dependency"⟩ ∧
        sumAndCycle.recalculate.table.cell 1 1 = .ok (.text "6") ∧
        sumAndCycle.recalculate.table.cell 1 3 = .ok (.text failedText) := by
    unfold recalculate
    dsimp only
    rw [plan_sumAndCycle]
    decide +kernel
  have hlaw : ∀ changes, sumAndCycle = (ofData fourAndFive .dependency .builtIn).after changes →
      UpToDate sumAndCycle.recalculate.table := by
    intro changes he
    have hmatch := recalculation_brings_up_to_date fourAndFive .builtIn changes
    rw [← he] at hmatch
    dsimp only at hmatch
    rw [hreport] at hmatch
    exact hmatch
  exact ⟨hreport, hsum, hfailed, hlaw [.append sumAndCycleColumns] rfl⟩

end

end Table

end Worksheet
