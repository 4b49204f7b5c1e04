-- Registering a node again. What the node reads is replaced, but it stays
-- among the readers of all that it ever read. So the two sides of the edges
-- agree exactly when no registration leaves out what an earlier one of the
-- same node read, and then the graph answers by what the nodes read now.
import Worksheet.Proofs.Graph.Cycles

open Relation

namespace Worksheet.ReferenceGraph

variable {α : Type} [DecidableEq α]

/-! ## What the registrations say -/

/-- Some registration of `n` says that it reads from `d`. -/
def EverReads (regs : List (α × List α)) (n d : α) : Prop := ∃ ds, (n, ds) ∈ regs ∧ d ∈ ds

/-- The last registration of `n` says that it reads from `d`. -/
def NowReads (regs : List (α × List α)) (n d : α) : Prop :=
  ∃ before ds after, regs = before ++ (n, ds) :: after ∧ n ∉ after.map Prod.fst ∧ d ∈ ds

/-- By its last registration `n` reads from `d`, and `d` is registered. -/
def ReadsNow (regs : List (α × List α)) (n d : α) : Prop :=
  NowReads regs n d ∧ d ∈ regs.map Prod.fst

/-- No registration leaves out what an earlier one of the same node read. -/
def NothingDropped (regs : List (α × List α)) : Prop :=
  ∀ n d, EverReads regs n d → NowReads regs n d

omit [DecidableEq α] in
theorem NowReads.everReads {regs : List (α × List α)} {n d : α} (h : NowReads regs n d) :
    EverReads regs n d := by
  obtain ⟨before, ds, after, rfl, -, hd⟩ := h
  exact ⟨ds, by simp, hd⟩

omit [DecidableEq α] in
theorem not_nowReads_nil (n d : α) : ¬ NowReads [] n d := by
  rintro ⟨before, ds, after, he, -, -⟩
  simp at he

omit [DecidableEq α] in
/-- One registration more decides for its own node, and for no other one. -/
theorem nowReads_snoc (regs : List (α × List α)) (m n d : α) (ds : List α) :
    NowReads (regs ++ [(m, ds)]) n d ↔ m = n ∧ d ∈ ds ∨ m ≠ n ∧ NowReads regs n d := by
  constructor
  · rintro ⟨before, es, after, he, hafter, hd⟩
    rcases List.eq_nil_or_concat after with rfl | ⟨after', last, rfl⟩
    · obtain ⟨-, hlast⟩ := List.append_inj' he rfl
      obtain ⟨rfl, rfl⟩ : m = n ∧ ds = es := by simpa using hlast
      exact Or.inl ⟨rfl, hd⟩
    · rw [List.concat_eq_append] at he hafter
      have he' : regs ++ [(m, ds)] = (before ++ (n, es) :: after') ++ [last] := by simpa using he
      obtain ⟨hregs, hlast⟩ := List.append_inj' he' rfl
      obtain rfl : (m, ds) = last := by simpa using hlast
      simp only [List.map_append, List.mem_append, List.map_cons, List.map_nil,
        List.mem_singleton, not_or] at hafter
      exact Or.inr ⟨fun h => hafter.2 h.symm, before, es, after', hregs, hafter.1, hd⟩
  · rintro (⟨rfl, hd⟩ | ⟨hne, before, es, after, rfl, hafter, hd⟩)
    · exact ⟨regs, ds, [], rfl, by simp, hd⟩
    · refine ⟨before, es, after ++ [(m, ds)], by simp, ?_, hd⟩
      have hne' : n ≠ m := fun h => hne h.symm
      simpa [hne'] using hafter

/-! ## What the graph keeps -/

theorem mem_nodes_ofRegistrations (regs : List (α × List α)) (n : α) :
    n ∈ (ofRegistrations regs).nodes ↔ n ∈ regs.map Prod.fst := by
  induction regs using List.reverseRecOn with
  | nil => simp [ofRegistrations, nodes, empty]
  | append_singleton regs p ih =>
    rw [ofRegistrations_snoc, nodes_register, List.map_append, List.mem_append, ← ih]
    split
    · rename_i hold
      simp only [List.map_cons, List.map_nil, List.mem_singleton, iff_self_or]
      rintro rfl
      exact hold
    · simp

/-- A node reads what its last registration says. -/
theorem mem_readsOf_ofRegistrations (regs : List (α × List α)) (n d : α) :
    d ∈ (ofRegistrations regs).readsOf n ↔ NowReads regs n d := by
  induction regs using List.reverseRecOn with
  | nil => simp [not_nowReads_nil, ofRegistrations, readsOf, empty]
  | append_singleton regs p ih =>
    obtain ⟨m, ds⟩ := p
    rw [ofRegistrations_snoc, readsOf_register, nowReads_snoc]
    by_cases hm : m = n
    · simp [hm, mem_firstOnly]
    · simp [hm, ih]

/-- The readers of a node are all that ever read it. -/
theorem mem_readersOf_ofRegistrations (regs : List (α × List α)) (n d : α) :
    n ∈ (ofRegistrations regs).readersOf d ↔ EverReads regs n d := by
  induction regs using List.reverseRecOn with
  | nil => simp [EverReads, ofRegistrations, readersOf, empty]
  | append_singleton regs p ih =>
    obtain ⟨m, ds⟩ := p
    rw [ofRegistrations_snoc, mem_readersOf_register, ih]
    unfold EverReads
    simp only [List.mem_append, List.mem_singleton, Prod.mk.injEq, or_and_right, exists_or,
      and_assoc, exists_and_left, exists_eq_left]

theorem nodup_readsOf_ofRegistrations (regs : List (α × List α)) (n : α) :
    ((ofRegistrations regs).readsOf n).Nodup := by
  induction regs using List.reverseRecOn with
  | nil => simp [ofRegistrations, readsOf, empty]
  | append_singleton regs p ih =>
    rw [ofRegistrations_snoc, readsOf_register]
    split
    · exact nodup_firstOnly _
    · exact ih

theorem consistent_iff_nothingDropped (regs : List (α × List α)) :
    Consistent (ofRegistrations regs) ↔ NothingDropped regs := by
  constructor
  · intro h n d hever
    rw [← mem_readsOf_ofRegistrations, ← h.mem_readersOf, mem_readersOf_ofRegistrations]
    exact hever
  · intro h
    refine ⟨fun n d => ?_, nodup_readsOf_ofRegistrations regs⟩
    rw [mem_readersOf_ofRegistrations, mem_readsOf_ofRegistrations]
    exact ⟨h n d, NowReads.everReads⟩

theorem readsNode_eq_readsNow (regs : List (α × List α)) :
    (ofRegistrations regs).ReadsNode = ReadsNow regs := by
  funext n d
  unfold ReadsNode ReadsNow
  rw [mem_readsOf_ofRegistrations, mem_nodes_ofRegistrations]

/-! ## The law -/

/-- Registrations of any nodes, again and again. A node reads what its last
registration says, and is a reader of all that it ever read; so both sides of
the edges agree if and only if no registration leaves out what an earlier one
of the same node read. In that case the order, the blocked nodes and
the nodes on a cycle are those of what the nodes read now. -/
theorem edges_after_registrations (regs : List (α × List α)) :
    (∀ n d, d ∈ (ofRegistrations regs).readsOf n ↔ NowReads regs n d) ∧
      (∀ n d, n ∈ (ofRegistrations regs).readersOf d ↔ EverReads regs n d) ∧
      ((∀ n d, n ∈ (ofRegistrations regs).readersOf d ↔
        n ∈ (ofRegistrations regs).nodes ∧ d ∈ (ofRegistrations regs).readsOf n) ↔
          NothingDropped regs) ∧
      (NothingDropped regs →
        (ofRegistrations regs).Finishes (ofRegistrations regs).order ∧
          ((ofRegistrations regs).order ++ (ofRegistrations regs).blocked).Nodup ∧
          (∀ n, n ∈ (ofRegistrations regs).order ++ (ofRegistrations regs).blocked ↔
            n ∈ regs.map Prod.fst) ∧
          (∀ before n after, (ofRegistrations regs).order = before ++ n :: after →
            ∀ d, ReadsNow regs n d → d ∈ before) ∧
          (∀ n, n ∈ (ofRegistrations regs).blocked ↔ ReachesCycle (ReadsNow regs) n) ∧
          ∀ n, n ∈ (ofRegistrations regs).onCycle ↔ TransGen (ReadsNow regs) n n) := by
  refine ⟨mem_readsOf_ofRegistrations regs, mem_readersOf_ofRegistrations regs, ?_, fun h => ?_⟩
  · rw [← consistent_iff_nothingDropped]
    constructor
    · intro h
      refine ⟨fun n d => ?_, nodup_readsOf_ofRegistrations regs⟩
      rw [h n d]
      exact ⟨And.right, fun hd => ⟨mem_nodes_of_mem_readsOf hd, hd⟩⟩
    · intro hg n d
      rw [hg.mem_readersOf]
      exact ⟨fun hd => ⟨mem_nodes_of_mem_readsOf hd, hd⟩, And.right⟩
  · have hg := (consistent_iff_nothingDropped regs).mpr h
    have hperm := order_append_blocked_perm hg
    refine ⟨finishes_order hg, hperm.nodup_iff.mpr (nodes_nodup _), fun n => ?_, ?_, ?_, ?_⟩
    · rw [hperm.mem_iff, mem_nodes_ofRegistrations]
    · rw [← readsNode_eq_readsNow]
      exact order_readFirst hg
    · rw [← readsNode_eq_readsNow]
      exact mem_blocked_iff_reachesCycle hg
    · rw [← readsNode_eq_readsNow]
      exact mem_onCycle_iff hg

/-- A node that is registered again, with one more node to read. -/
theorem edges_after_one_more_read :
    let regs : List (Nat × List Nat) := [(2, [1]), (1, []), (2, [3, 1]), (3, [])]
    NothingDropped regs ∧ ReadsNow regs 2 3 ∧ (ofRegistrations regs).order = [1, 3, 2] ∧
      ¬ ReachesCycle (ReadsNow regs) 2 := by
  intro regs
  have hkept : NothingDropped regs := by
    rintro n d ⟨ds, hmem, hd⟩
    have hlast : NowReads regs 2 1 ∧ NowReads regs 2 3 :=
      ⟨⟨[(2, [1]), (1, [])], [3, 1], [(3, [])], rfl, by decide, by decide⟩,
        ⟨[(2, [1]), (1, [])], [3, 1], [(3, [])], rfl, by decide, by decide⟩⟩
    simp only [regs, List.mem_cons, Prod.mk.injEq, List.not_mem_nil, or_false] at hmem
    rcases hmem with ⟨rfl, rfl⟩ | ⟨rfl, rfl⟩ | ⟨rfl, rfl⟩ | ⟨rfl, rfl⟩
    · obtain rfl := List.mem_singleton.mp hd
      exact hlast.1
    · cases hd
    · rcases List.mem_cons.mp hd with rfl | hd
      · exact hlast.2
      · obtain rfl := List.mem_singleton.mp hd
        exact hlast.1
    · cases hd
  obtain ⟨hreads, -, -, hanswers⟩ := edges_after_registrations regs
  obtain ⟨-, -, -, -, hblocked, -⟩ := hanswers hkept
  refine ⟨hkept, ⟨(hreads 2 3).mp (by decide), by decide⟩, by decide, ?_⟩
  rw [← hblocked 2]
  decide

/-- A node that read another one and is registered again, to read itself. It
is still a reader of the other one, is set free by it, and gets into the
order, on a cycle as it is. -/
theorem edge_left_behind :
    let regs : List (Nat × List Nat) := [(0, []), (1, [0]), (1, [1])]
    1 ∈ (ofRegistrations regs).readersOf 0 ∧ 0 ∉ (ofRegistrations regs).readsOf 1 ∧
      TransGen (ReadsNow regs) 1 1 ∧ (ofRegistrations regs).order = [0, 1] ∧
      (ofRegistrations regs).blocked = [] ∧ (ofRegistrations regs).onCycle = [] := by
  intro regs
  have hself : ReadsNow regs 1 1 :=
    ⟨⟨[(0, []), (1, [0])], [1], [], rfl, by decide, by decide⟩, by decide⟩
  exact ⟨by decide, by decide, .single hself, by decide, by decide, by decide⟩

end Worksheet.ReferenceGraph
