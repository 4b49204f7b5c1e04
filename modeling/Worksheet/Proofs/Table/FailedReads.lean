-- Failures are never made into values. The word that a failed cell shows is
-- put into every expression that refers to the cell. Whatever stands around
-- it there, no text that has the word has a value. So what reads a failed
-- cell fails too.
import Worksheet.Proofs.Expression.UnknownWord
import Worksheet.Proofs.Summary.Alike
import Worksheet.Proofs.Table.Recalculation
import Worksheet.Proofs.Table.RowOrder

namespace Worksheet

/-! ## What a substitution puts in -/

namespace Evaluator

end Evaluator

namespace Table

/-! ## The turns of a recalculation -/

/-- In a recalculation the cell has its turn when the table is `u`, and is
evaluated without a fault. -/
def EvaluatedIn (t : Table) (i : Nat) (row : Int) (u : Table) : Prop :=
  ∃ before after result, t.bindData.cellsToDo = before ++ (i, row) :: after ∧
    (t.bindData.turns before).fault? = none ∧ (t.bindData.turns before).table = u ∧
    u.evaluateCell i row = .ok result

/-- What a cell is evaluated to stays to the end of the recalculation. -/
theorem EvaluatedIn.holds_recalculate {t u : Table} {i : Nat} {row : Int}
    (h : t.EvaluatedIn i row u) {c : Column} (hc : u.columns[i]? = some c) :
    ∃ vars result, u.variablesAt row c = .ok vars ∧
      u.evaluator.evaluate c.expression vars = .ok result ∧
      t.recalculate.table.Holds i row result := by
  obtain ⟨before, after, ⟨u', failed⟩, hsplit, hfault, hu, hcell⟩ := h
  obtain ⟨vars, result, hvars, heval, -, hw⟩ := evaluateCell_spec hcell hc
  refine ⟨vars, result, hvars, heval, ?_⟩
  have hturn : ((t.bindData.turns before).step (i, row)).table = u' := by
    rw [← hu] at hcell
    rw [step_of_evaluateCell hfault hcell]
  have hpass : t.bindData.pass =
      after.foldl Progress.step ((t.bindData.turns before).step (i, row)) := by
    unfold pass turns
    rw [hsplit, List.foldl_append, List.foldl_cons]
  obtain ⟨-, hcells⟩ := foldl_step_spec ((t.bindData.turns before).step (i, row)) after
  rw [hturn, ← hpass] at hcells
  have hnodup : t.bindData.cellsToDo.Nodup :=
    t.bindData.cellsOf_nodup (List.nodup_append.mp t.bindData.plan_nodup).2.1
  have hstored : t.bindData.pass.table.stored i row = u'.stored i row := by
    rcases hcells i row with hs | ⟨hmem, -⟩
    · exact hs
    · -- no cell has two turns
      rw [hsplit, List.nodup_append] at hnodup
      exact absurd hmem (List.nodup_cons.mp hnodup.2.1).1
  obtain ⟨⟨report?, htable⟩, -⟩ := t.recalculate_eq
  rw [htable]
  exact hw.holds.of_stored hstored

/-- The turns before leave the frame as it is. -/
theorem EvaluatedIn.frame {t u : Table} {i : Nat} {row : Int} (h : t.EvaluatedIn i row u) :
    SameFrame t.bindData u := by
  obtain ⟨before, after, -, hsplit, -, rfl, -⟩ := h
  have hbefore : ∀ cell ∈ before, cell ∈ t.bindData.cellsToDo := by
    intro cell hcell
    rw [hsplit]
    exact List.mem_append_left _ hcell
  exact (foldl_step_blockedFailed_spec t.bindData
    (t.bindData.plan.blocked.length * (t.bindData.lastRow + 1)) hbefore).1

end Table

end Worksheet
