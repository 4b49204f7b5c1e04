-- The laws of the order of evaluation. Each turn of the loop keeps the
-- invariant `Sound`, so at the end a node is in the order exactly when all
-- the nodes that it reads are. The nodes left over read from a cycle: a walk
-- among them never comes to an end.
import Worksheet.Proofs.Graph.Registration
import Mathlib.Data.Fintype.Card
import Mathlib.Data.Fintype.EquivFin
import Mathlib.Data.List.Perm.Subperm
import Mathlib.Logic.Relation

open Relation

namespace Worksheet

/-- A walk along the relation leads from here to a cycle. -/
def ReachesCycle {α : Type} (r : α → α → Prop) (a : α) : Prop :=
  ∃ c, ReflTransGen r a c ∧ TransGen r c c

namespace ReferenceGraph

variable {α : Type} [DecidableEq α]

/-! ## What a node waits for -/

/-- `n` reads from `d`, and `d` is a node as well. -/
def ReadsNode (g : ReferenceGraph α) (n d : α) : Prop := d ∈ g.readsOf n ∧ d ∈ g.nodes

/-- Every node that `n` reads from is among those done. -/
def Ready (g : ReferenceGraph α) (done : List α) (n : α) : Prop :=
  ∀ d, g.ReadsNode n d → d ∈ done

/-- In the list, every node stands after those that it reads from. -/
def ReadFirst (g : ReferenceGraph α) (l : List α) : Prop :=
  ∀ before n after, l = before ++ n :: after → g.Ready before n

theorem Ready.mono {g : ReferenceGraph α} {l l' : List α} {n : α} (h : g.Ready l n)
    (hl : l ⊆ l') : g.Ready l' n := fun d hd => hl (h d hd)

theorem waitsFor_eq_zero_iff (g : ReferenceGraph α) (n : α) :
    g.waitsFor n = 0 ↔ g.Ready [] n := by
  unfold waitsFor Ready ReadsNode
  rw [List.length_eq_zero_iff, List.filter_eq_nil_iff]
  constructor
  · rintro h d ⟨hd, hnode⟩
    exact absurd (decide_eq_true hnode) (h d hd)
  · intro h d hd hnode
    exact List.not_mem_nil (h d ⟨hd, of_decide_eq_true hnode⟩)

/-- The counter of a node is zero when all that it waits for is done. The
nodes done that `n` reads are as many as the counter has lost, and they are
all there are exactly when the two lists have one length. -/
theorem waiting_eq_zero_iff {g : ReferenceGraph α} (hg : Consistent g) {done : List α}
    (hdone : done.Nodup) (hsub : ∀ d ∈ done, d ∈ g.nodes) (n : α) :
    g.waiting done n = 0 ↔ g.Ready done n := by
  have hin : done.filter (fun d => decide (n ∈ g.readersOf d)) ⊆
      (g.readsOf n).filter fun r => decide (r ∈ g.nodes) := by
    intro d hd
    rw [List.mem_filter, decide_eq_true_eq, hg.mem_readersOf] at hd
    simp [hd.2, hsub d hd.1]
  have hperm := List.subperm_of_subset (hdone.filter _) hin
  have hle := hperm.length_le
  unfold waiting waitsFor Ready ReadsNode
  constructor
  · rintro h d ⟨hd, hnode⟩
    have hall := hperm.perm_of_length_le (by omega)
    have hmem : d ∈ (g.readsOf n).filter fun r => decide (r ∈ g.nodes) := by
      simp [hd, hnode]
    exact (List.mem_filter.mp (hall.mem_iff.mpr hmem)).1
  · intro h
    have hback : (g.readsOf n).filter (fun r => decide (r ∈ g.nodes)) ⊆
        done.filter fun d => decide (n ∈ g.readersOf d) := by
      intro d hd
      rw [List.mem_filter, decide_eq_true_eq] at hd
      rw [List.mem_filter, decide_eq_true_eq, hg.mem_readersOf]
      exact ⟨h d hd, hd.1⟩
    have := (List.subperm_of_subset ((hg.nodup_readsOf n).filter _) hback).length_le
    omega

/-! ## The invariant of the loop -/

/-- The state of the loop. The nodes done or in the queue are those that
wait for nothing any more, each once. -/
structure Sound (g : ReferenceGraph α) (queue done : List α) : Prop where
  nodup : (done ++ queue).Nodup
  registered : ∀ n ∈ done ++ queue, n ∈ g.nodes
  mem_iff : ∀ n ∈ g.nodes, n ∈ done ++ queue ↔ g.Ready done n
  readFirst : g.ReadFirst done

theorem sound_start (g : ReferenceGraph α) :
    Sound g (g.nodes.filter fun n => g.waitsFor n == 0) [] := by
  refine ⟨?_, ?_, ?_, ?_⟩
  · exact g.nodes_nodup.filter _
  · intro n hn
    exact (List.mem_filter.mp hn).1
  · intro n hn
    simp [hn, ← waitsFor_eq_zero_iff]
  · intro before n after h
    simp at h

theorem readFirst_snoc {g : ReferenceGraph α} {l : List α} {n : α} (h : g.ReadFirst l)
    (hn : g.Ready l n) : g.ReadFirst (l ++ [n]) := by
  intro before m after he
  rcases List.eq_nil_or_concat after with rfl | ⟨after', z, rfl⟩
  · have hl := List.append_inj' he rfl
    have hm : m = n := by simpa using hl.2.symm
    subst hm
    exact hl.1 ▸ hn
  · have he' : l ++ [n] = (before ++ m :: after') ++ [z] := by simpa using he
    exact h before m after' (List.append_inj' he' rfl).1

/-- The nodes that the last node done sets free: they read it, and wait for
nothing else. -/
theorem mem_released_iff {g : ReferenceGraph α} (hg : Consistent g) {done : List α} {n : α}
    (hdone : (done ++ [n]).Nodup) (hsub : ∀ d ∈ done ++ [n], d ∈ g.nodes) (m : α) :
    m ∈ g.released done n ↔ m ∈ g.nodes ∧ n ∈ g.readsOf m ∧ g.Ready (done ++ [n]) m := by
  unfold released
  rw [List.mem_filter, Bool.and_eq_true, decide_eq_true_eq, beq_iff_eq,
    waiting_eq_zero_iff hg hdone hsub, hg.mem_readersOf]

/-- One turn of the loop keeps the invariant. -/
theorem Sound.step {g : ReferenceGraph α} (hg : Consistent g) {n : α} {queue done : List α}
    (h : Sound g (n :: queue) done) :
    Sound g (queue ++ g.released done n) (done ++ [n]) := by
  have hsplit : (done ++ [n]) ++ queue = done ++ n :: queue := by simp
  have hnodup : ((done ++ [n]) ++ queue).Nodup := hsplit ▸ h.nodup
  have hreg : ∀ d ∈ (done ++ [n]) ++ queue, d ∈ g.nodes := hsplit ▸ h.registered
  have hn : n ∈ g.nodes := h.registered n (by simp)
  have hready : g.Ready done n := (h.mem_iff n hn).mp (by simp)
  have hdone : n ∉ done := fun hmem =>
    (List.nodup_append.mp h.nodup).2.2 n hmem n (by simp) rfl
  have hfree := mem_released_iff hg (hnodup.sublist (List.sublist_append_left _ _))
    (fun d hd => hreg d (List.mem_append_left _ hd))
  refine ⟨?_, ?_, ?_, readFirst_snoc h.readFirst hready⟩
  · -- what is set free read `n` before it was done, so it was not in the lists
    rw [← List.append_assoc, List.nodup_append]
    refine ⟨hnodup, g.nodes_nodup.filter _, ?_⟩
    rintro m hm _ hm' rfl
    obtain ⟨hnode, hreads, -⟩ := (hfree m).mp hm'
    rw [hsplit] at hm
    exact hdone ((h.mem_iff m hnode).mp hm n ⟨hreads, hn⟩)
  · intro m hm
    rw [← List.append_assoc, List.mem_append] at hm
    rcases hm with hm | hm
    · exact hreg m hm
    · exact ((hfree m).mp hm).1
  · intro m hm
    rw [← List.append_assoc, List.mem_append, hsplit, h.mem_iff m hm]
    constructor
    · rintro (hr | hr)
      · exact hr.mono (List.subset_append_left _ _)
      · exact ((hfree m).mp hr).2.2
    · intro hr
      by_cases hread : n ∈ g.readsOf m
      · exact Or.inr ((hfree m).mpr ⟨hm, hread, hr⟩)
      · refine Or.inl fun d hd => ?_
        have hd' := hr d hd
        rw [List.mem_append, List.mem_singleton] at hd'
        rcases hd' with hd' | rfl
        · exact hd'
        · exact absurd hd.1 hread

/-! ## The whole loop -/

/-- A run of the loop to its end, without a bound on its turns: from a queue
and the nodes done to the nodes done when the queue is empty. -/
inductive Settles (g : ReferenceGraph α) : List α → List α → List α → Prop
  | finished (done : List α) : Settles g [] done done
  | turn {n : α} {queue done result : List α} :
      Settles g (queue ++ g.released done n) (done ++ [n]) result →
        Settles g (n :: queue) done result

theorem Sound.settles {g : ReferenceGraph α} (hg : Consistent g) {queue done result : List α}
    (h : Sound g queue done) (hs : Settles g queue done result) : Sound g [] result := by
  induction hs with
  | finished done => exact h
  | turn _ ih => exact ih (h.step hg)

theorem Sound.length_le {g : ReferenceGraph α} {queue done : List α} (h : Sound g queue done) :
    done.length + queue.length ≤ g.nodes.length := by
  rw [← List.length_append]
  exact (List.subperm_of_subset h.nodup h.registered).length_le

/-- As many turns as there are nodes left bring the loop to its end. -/
theorem settles_settle {g : ReferenceGraph α} (hg : Consistent g) (steps : Nat)
    {queue done : List α} (h : Sound g queue done)
    (hsteps : g.nodes.length ≤ done.length + steps) :
    Settles g queue done (g.settle steps queue done) := by
  induction steps generalizing queue done with
  | zero =>
    have hlen := h.length_le
    have hq : queue = [] := List.length_eq_zero_iff.mp (by omega)
    subst hq
    exact .finished done
  | succ steps ih =>
    cases queue with
    | nil => exact .finished done
    | cons n queue =>
      refine .turn (ih (h.step hg) ?_)
      simp only [List.length_append, List.length_singleton]
      omega

/-- The loop, begun with the nodes that wait for nothing, comes to its end
with these nodes done. -/
def Finishes (g : ReferenceGraph α) (result : List α) : Prop :=
  Settles g (g.nodes.filter fun n => g.waitsFor n == 0) [] result

theorem finishes_order {g : ReferenceGraph α} (hg : Consistent g) : g.Finishes g.order :=
  settles_settle hg g.nodes.length (sound_start g) (by simp)

theorem sound_order {g : ReferenceGraph α} (hg : Consistent g) : Sound g [] g.order :=
  (sound_start g).settles hg (finishes_order hg)

/-! ## The order -/

theorem order_nodup {g : ReferenceGraph α} (hg : Consistent g) : g.order.Nodup := by
  simpa using (sound_order hg).nodup

theorem mem_nodes_of_mem_order {g : ReferenceGraph α} (hg : Consistent g) {n : α}
    (h : n ∈ g.order) : n ∈ g.nodes := (sound_order hg).registered n (by simpa using h)

/-- A node is in the order exactly when all nodes that it reads are. -/
theorem mem_order_iff {g : ReferenceGraph α} (hg : Consistent g) {n : α} (hn : n ∈ g.nodes) :
    n ∈ g.order ↔ g.Ready g.order n := by
  simpa using (sound_order hg).mem_iff n hn

theorem order_readFirst {g : ReferenceGraph α} (hg : Consistent g) : g.ReadFirst g.order :=
  (sound_order hg).readFirst

theorem mem_blocked_iff (g : ReferenceGraph α) (n : α) :
    n ∈ g.blocked ↔ n ∈ g.nodes ∧ n ∉ g.order := by
  simp [blocked]

/-- The order and the blocked nodes share out the nodes. -/
theorem order_append_blocked_perm {g : ReferenceGraph α} (hg : Consistent g) :
    (g.order ++ g.blocked).Perm g.nodes := by
  rw [List.perm_ext_iff_of_nodup _ g.nodes_nodup]
  · intro n
    rw [List.mem_append, mem_blocked_iff]
    constructor
    · rintro (h | h)
      · exact mem_nodes_of_mem_order hg h
      · exact h.1
    · intro h
      by_cases ho : n ∈ g.order
      · exact Or.inl ho
      · exact Or.inr ⟨h, ho⟩
  · rw [List.nodup_append]
    refine ⟨order_nodup hg, g.nodes_nodup.filter _, ?_⟩
    rintro n hn _ hb rfl
    exact ((mem_blocked_iff g n).mp hb).2 hn

/-! ## The blocked nodes -/

/-- Along what a node of the order reads, the places in the order fall. -/
theorem idxOf_lt_of_readsNode {g : ReferenceGraph α} (hg : Consistent g) {n d : α}
    (hn : n ∈ g.order) (hd : g.ReadsNode n d) :
    d ∈ g.order ∧ g.order.idxOf d < g.order.idxOf n := by
  obtain ⟨before, after, he⟩ := List.append_of_mem hn
  have hb : d ∈ before := order_readFirst hg before n after he d hd
  have hnodup := order_nodup hg
  rw [he] at hnodup ⊢
  have hnb : n ∉ before := fun h =>
    (List.nodup_append.mp hnodup).2.2 n h n (by simp) rfl
  refine ⟨by simp [hb], ?_⟩
  rw [List.idxOf_append_of_mem hb, List.idxOf_append_of_notMem hnb]
  have := List.idxOf_lt_length_of_mem hb
  omega

theorem idxOf_lt_of_transGen {g : ReferenceGraph α} (hg : Consistent g) {n d : α}
    (hn : n ∈ g.order) (h : TransGen g.ReadsNode n d) :
    d ∈ g.order ∧ g.order.idxOf d < g.order.idxOf n := by
  induction h with
  | single h => exact idxOf_lt_of_readsNode hg hn h
  | tail _ h ih =>
    obtain ⟨hb, hlt⟩ := ih
    obtain ⟨hc, hlt'⟩ := idxOf_lt_of_readsNode hg hb h
    exact ⟨hc, hlt'.trans hlt⟩

/-- A node from which a cycle is reached never gets into the order. -/
theorem not_mem_order_of_reachesCycle {g : ReferenceGraph α} (hg : Consistent g) {n : α}
    (h : ReachesCycle g.ReadsNode n) : n ∉ g.order := by
  obtain ⟨c, hreach, hcycle⟩ := h
  intro hn
  have hc : c ∈ g.order := by
    rcases reflTransGen_iff_eq_or_transGen.mp hreach with rfl | ht
    · exact hn
    · exact (idxOf_lt_of_transGen hg hn ht).1
  exact Nat.lt_irrefl _ (idxOf_lt_of_transGen hg hc hcycle).2

/-- A relation on a finite type without cycles has an end on every walk. -/
theorem exists_end_of_no_cycle {β : Type} [Finite β] {r : β → β → Prop}
    (h : ∀ b, ¬ TransGen r b b) (b : β) : ∃ e, ReflTransGen r b e ∧ ∀ x, ¬ r e x := by
  have hwf : WellFounded fun x y => TransGen r y x := by
    have : IsTrans β fun x y => TransGen r y x := ⟨fun _ _ _ h1 h2 => h2.trans h1⟩
    have : Std.Irrefl fun x y => TransGen r y x := ⟨h⟩
    exact Finite.wellFounded_of_trans_of_irrefl _
  induction b using hwf.induction with
  | _ b ih =>
    by_cases hb : ∃ x, r b x
    · obtain ⟨x, hx⟩ := hb
      obtain ⟨e, hreach, he⟩ := ih x (TransGen.single hx)
      exact ⟨e, hreach.head hx, he⟩
    · exact ⟨b, .refl, fun x hx => hb ⟨x, hx⟩⟩

theorem exists_blocked_of_mem_blocked {g : ReferenceGraph α} (hg : Consistent g) {n : α}
    (h : n ∈ g.blocked) : ∃ d ∈ g.blocked, g.ReadsNode n d := by
  obtain ⟨hnode, hout⟩ := (mem_blocked_iff g n).mp h
  rw [mem_order_iff hg hnode] at hout
  unfold Ready at hout
  push Not at hout
  obtain ⟨d, hd, hd'⟩ := hout
  exact ⟨d, (mem_blocked_iff g d).mpr ⟨hd.2, hd'⟩, hd⟩

/-- A blocked node reads a blocked node, so no walk among the blocked nodes
has an end, and there is a cycle. -/
theorem reachesCycle_of_mem_blocked {g : ReferenceGraph α} (hg : Consistent g) {n : α}
    (h : n ∈ g.blocked) : ReachesCycle g.ReadsNode n := by
  by_contra hno
  -- the blocked nodes on walks from `n`, none of which lies on a cycle
  let Walked := {x // x ∈ g.blocked ∧ ReflTransGen g.ReadsNode n x}
  let r : Walked → Walked → Prop := fun x y => g.ReadsNode x y
  have hinj : Function.Injective fun x : Walked => (⟨x.1, x.2.1⟩ : {x // x ∈ g.blocked}) := by
    intro x y hxy
    exact Subtype.ext (by simpa using hxy)
  have : Finite Walked := Finite.of_injective _ hinj
  have hacyclic : ∀ x, ¬ TransGen r x x := fun x hcycle =>
    hno ⟨x, x.2.2, TransGen.lift (fun y : Walked => y.1) (fun _ _ hr => hr) x x hcycle⟩
  obtain ⟨e, -, hend⟩ := exists_end_of_no_cycle hacyclic ⟨n, h, .refl⟩
  obtain ⟨d, hd, hread⟩ := exists_blocked_of_mem_blocked hg e.2.1
  exact hend ⟨d, hd, e.2.2.tail hread⟩ hread

/-- The blocked nodes are those from which a cycle is reached. -/
theorem mem_blocked_iff_reachesCycle {g : ReferenceGraph α} (hg : Consistent g) (n : α) :
    n ∈ g.blocked ↔ ReachesCycle g.ReadsNode n := by
  constructor
  · exact reachesCycle_of_mem_blocked hg
  · intro h
    refine (mem_blocked_iff g n).mpr ⟨?_, not_mem_order_of_reachesCycle hg h⟩
    obtain ⟨c, hreach, hcycle⟩ := h
    have hstep : ∃ d, g.ReadsNode n d := by
      rcases hreach.cases_head with rfl | ⟨d, hd, -⟩
      · obtain ⟨d, hd, -⟩ := TransGen.head'_iff.mp hcycle
        exact ⟨d, hd⟩
      · exact ⟨d, hd⟩
    obtain ⟨d, hd⟩ := hstep
    exact mem_nodes_of_mem_readsOf hd.1

/-! ## The laws -/

/-- By the registrations, `n` reads from `d`, and both are registered. -/
def Reads (regs : List (α × List α)) (n d : α) : Prop :=
  (∃ ds, (n, ds) ∈ regs ∧ d ∈ ds) ∧ d ∈ regs.map Prod.fst

theorem readsNode_ofRegistrations (regs : List (α × List α)) (h : (regs.map Prod.fst).Nodup) :
    (ofRegistrations regs).ReadsNode = Reads regs := by
  obtain ⟨-, hnodes, hreads⟩ := ofRegistrations_spec regs h
  funext n d
  unfold ReadsNode Reads
  rw [hreads, hnodes]

end ReferenceGraph

end Worksheet
