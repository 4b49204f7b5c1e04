-- The nodes on a cycle. The readers of a node are collected in rounds, and
-- each round that finds new ones leaves fewer nodes to find, so that in the
-- end all readers of what was collected are collected as well. A node is on a
-- cycle exactly when it is found among its own readers.
import Worksheet.Proofs.Graph.Order

open Relation

namespace Worksheet.ReferenceGraph

variable {α : Type} [DecidableEq α]

/-! ## One round -/

/-- The finds of one round: the readers of the newest nodes that were not
reached before. -/
def finds (g : ReferenceGraph α) (reached newest : List α) : List α :=
  firstOnly ((newest.flatMap g.readersOf).filter fun n => !decide (n ∈ reached))

theorem spread_succ (g : ReferenceGraph α) (rounds : Nat) (reached newest : List α) :
    g.spread (rounds + 1) reached newest =
      if (g.finds reached newest).isEmpty then reached
      else g.spread rounds (reached ++ g.finds reached newest) (g.finds reached newest) := rfl

theorem mem_finds_iff (g : ReferenceGraph α) (reached newest : List α) (m : α) :
    m ∈ g.finds reached newest ↔ (∃ d ∈ newest, m ∈ g.readersOf d) ∧ m ∉ reached := by
  simp [finds, mem_firstOnly]

theorem finds_nodup (g : ReferenceGraph α) (reached newest : List α) :
    (g.finds reached newest).Nodup := nodup_firstOnly _

theorem Consistent.readsNode_iff {g : ReferenceGraph α} (hg : Consistent g) {d : α}
    (hd : d ∈ g.nodes) (m : α) : g.ReadsNode m d ↔ m ∈ g.readersOf d := by
  rw [hg.mem_readersOf]
  exact ⟨And.left, fun h => ⟨h, hd⟩⟩

/-- The state of the rounds that start from `n`. What is reached reads from
`n`, and only the readers of the newest nodes may still be missing. -/
structure Collected (g : ReferenceGraph α) (n : α) (reached newest : List α) : Prop where
  nodup : reached.Nodup
  reads : ∀ m ∈ reached, TransGen g.ReadsNode m n
  direct : g.readersOf n ⊆ reached
  newest_subset : newest ⊆ reached
  closed : ∀ m ∈ reached, m ∉ newest → g.readersOf m ⊆ reached

theorem Collected.registered {g : ReferenceGraph α} {n : α} {reached newest : List α}
    (h : Collected g n reached newest) {m : α} (hm : m ∈ reached) : m ∈ g.nodes := by
  obtain ⟨d, hread, -⟩ := TransGen.head'_iff.mp (h.reads m hm)
  exact mem_nodes_of_mem_readsOf hread.1

theorem collected_start {g : ReferenceGraph α} (hg : Consistent g) {n : α} (hn : n ∈ g.nodes) :
    Collected g n (firstOnly (g.readersOf n)) (firstOnly (g.readersOf n)) := by
  refine ⟨nodup_firstOnly _, ?_, ?_, fun _ => id, ?_⟩
  · intro m hm
    rw [mem_firstOnly] at hm
    exact .single ((hg.readsNode_iff hn m).mpr hm)
  · intro m hm
    exact (mem_firstOnly m _).mpr hm
  · intro m hm hnew
    exact absurd hm hnew

/-- One round keeps the state: its finds are the newest nodes then. -/
theorem Collected.round {g : ReferenceGraph α} (hg : Consistent g) {n : α}
    {reached newest : List α} (h : Collected g n reached newest) :
    Collected g n (reached ++ g.finds reached newest) (g.finds reached newest) := by
  have hmem := mem_finds_iff g reached newest
  refine ⟨?_, ?_, ?_, List.subset_append_right _ _, ?_⟩
  · rw [List.nodup_append]
    refine ⟨h.nodup, finds_nodup g _ _, ?_⟩
    rintro m hm _ hm' rfl
    exact ((hmem m).mp hm').2 hm
  · intro m hm
    rcases List.mem_append.mp hm with hm | hm
    · exact h.reads m hm
    · obtain ⟨⟨d, hd, hread⟩, -⟩ := (hmem m).mp hm
      have hd := h.newest_subset hd
      exact .head ((hg.readsNode_iff (h.registered hd) m).mpr hread) (h.reads d hd)
  · exact fun r hr => List.mem_append_left _ (h.direct hr)
  · intro m hm hnew r hr
    have hm : m ∈ reached := (List.mem_append.mp hm).resolve_right hnew
    rw [List.mem_append]
    by_cases hold : m ∈ newest
    · by_cases hr' : r ∈ reached
      · exact Or.inl hr'
      · exact Or.inr ((hmem r).mpr ⟨⟨m, hold, hr⟩, hr'⟩)
    · exact Or.inl (h.closed m hm hold hr)

/-! ## All rounds -/

/-- As many rounds as there are nodes left find all that can be found. -/
theorem Collected.spread {g : ReferenceGraph α} (hg : Consistent g) {n : α} (rounds : Nat)
    {reached newest : List α} (h : Collected g n reached newest)
    (hrounds : g.nodes.length ≤ reached.length + rounds) :
    Collected g n (g.spread rounds reached newest) [] := by
  induction rounds generalizing reached newest with
  | zero =>
    -- every node is reached, so no reader can be missing
    have hall : g.nodes ⊆ reached := by
      have hsub : reached ⊆ g.nodes := fun m hm => h.registered hm
      have hperm := (List.subperm_of_subset h.nodup hsub).perm_of_length_le (by omega)
      exact hperm.symm.subset
    refine ⟨h.nodup, h.reads, h.direct, List.nil_subset _, fun m _ _ r hr => ?_⟩
    rw [hg.mem_readersOf] at hr
    exact hall (mem_nodes_of_mem_readsOf hr)
  | succ rounds ih =>
    rw [spread_succ]
    split
    · rename_i hempty
      -- a round without finds leaves no reader missing
      rw [List.isEmpty_iff] at hempty
      refine ⟨h.nodup, h.reads, h.direct, List.nil_subset _, fun m hm _ r hr => ?_⟩
      by_cases hnew : m ∈ newest
      · by_contra hr'
        have hfound := (mem_finds_iff g reached newest r).mpr ⟨⟨m, hnew, hr⟩, hr'⟩
        rw [hempty] at hfound
        exact List.not_mem_nil hfound
      · exact h.closed m hm hnew hr
    · rename_i hfound
      rw [List.isEmpty_iff, ← List.length_eq_zero_iff] at hfound
      refine ih (h.round hg) ?_
      rw [List.length_append]
      omega

/-- What is collected is what reads from the node, directly or through
others. -/
theorem mem_allReadersOf_iff {g : ReferenceGraph α} (hg : Consistent g) {n : α}
    (hn : n ∈ g.nodes) (m : α) : m ∈ g.allReadersOf n ↔ TransGen g.ReadsNode m n := by
  have h : Collected g n (g.allReadersOf n) [] :=
    (collected_start hg hn).spread hg g.nodes.length (by omega)
  constructor
  · exact h.reads m
  · intro hreads
    induction hreads using TransGen.head_induction_on with
    | single hread => exact h.direct ((hg.readsNode_iff hn _).mp hread)
    | head hread _ ih =>
      exact h.closed _ ih List.not_mem_nil ((hg.readsNode_iff (h.registered ih) _).mp hread)

/-- A node on a cycle is blocked, and stands among its own readers. -/
theorem mem_onCycle_iff {g : ReferenceGraph α} (hg : Consistent g) (n : α) :
    n ∈ g.onCycle ↔ TransGen g.ReadsNode n n := by
  unfold onCycle
  rw [List.mem_filter, decide_eq_true_eq]
  constructor
  · rintro ⟨hblocked, hreads⟩
    exact (mem_allReadersOf_iff hg ((mem_blocked_iff g n).mp hblocked).1 n).mp hreads
  · intro hcycle
    have hblocked := (mem_blocked_iff_reachesCycle hg n).mpr ⟨n, .refl, hcycle⟩
    exact ⟨hblocked, (mem_allReadersOf_iff hg ((mem_blocked_iff g n).mp hblocked).1 n).mpr hcycle⟩

theorem onCycle_nodup (g : ReferenceGraph α) : g.onCycle.Nodup :=
  (g.nodes_nodup.filter _).filter _

/-! ## The law -/

/-- The nodes on a cycle of distinct registrations are those that read from
themselves, directly or through others. -/
theorem cycles_of_registrations (regs : List (α × List α)) (h : (regs.map Prod.fst).Nodup) :
    (ofRegistrations regs).onCycle.Nodup ∧
      ∀ n, n ∈ (ofRegistrations regs).onCycle ↔ TransGen (Reads regs) n n := by
  obtain ⟨hg, -, -⟩ := ofRegistrations_spec regs h
  refine ⟨onCycle_nodup _, ?_⟩
  rw [← readsNode_ofRegistrations regs h]
  exact mem_onCycle_iff hg

/-- Two cycles that share a node, a node between them and a third cycle that
reads from it, and a node behind all of them. -/
theorem cycles_around_a_bridge :
    let regs : List (Nat × List Nat) :=
      [(6, [5]), (1, [2, 3]), (2, [1]), (3, [9, 1]), (4, [1]), (5, [7, 4]), (7, [5])]
    (regs.map Prod.fst).Nodup ∧ TransGen (Reads regs) 1 1 ∧ TransGen (Reads regs) 3 3 ∧
      TransGen (Reads regs) 7 7 ∧ ¬ TransGen (Reads regs) 4 4 ∧ ¬ TransGen (Reads regs) 6 6 := by
  intro regs
  have hnodup : (regs.map Prod.fst).Nodup := by decide
  have hcycles := (cycles_of_registrations regs hnodup).2
  refine ⟨hnodup, (hcycles 1).mp (by decide), (hcycles 3).mp (by decide),
    (hcycles 7).mp (by decide), ?_, ?_⟩
  · rw [← hcycles 4]
    decide
  · rw [← hcycles 6]
    decide

end Worksheet.ReferenceGraph
