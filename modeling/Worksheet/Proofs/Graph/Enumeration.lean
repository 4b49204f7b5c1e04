-- The order of evaluation does not hang on the order in which a set is gone
-- through. The loop with counters goes through the readers of each node in
-- any order, counts each of them down, and sorts those that are ready by
-- their registration. It takes the same turns, and what decides is only what
-- each node reads and when it was registered.
import Mathlib.Data.List.Sort
import Mathlib.Logic.Function.Basic
import Worksheet.Proofs.Graph.Arrangement

namespace Worksheet.ReferenceGraph

variable {α : Type} [DecidableEq α]

/-! ## The loop with counters -/

/-- The list goes through the members of the other one, each once, in some
order. -/
def Enumerates (l s : List α) : Prop := l.Nodup ∧ ∀ a, a ∈ l ↔ a ∈ s

/-- What each node still waits for, and the nodes found ready. -/
structure Countdown (α : Type) where
  counters : α → Int
  ready : List α

/-- Counts a reader down, if it is a node. -/
def count (g : ReferenceGraph α) (c : Countdown α) (m : α) : Countdown α :=
  if m ∈ g.nodes then
    let counters := Function.update c.counters m (c.counters m - 1)
    ⟨counters, if counters m = 0 then c.ready ++ [m] else c.ready⟩
  else c

/-- The nodes in the order of their registration. -/
def byRegistration (g : ReferenceGraph α) (ready : List α) : List α :=
  ready.mergeSort fun a b => g.nodes.idxOf a ≤ g.nodes.idxOf b

/-- Takes the first node of the queue, counts its readers down one by one, and
puts those that are ready at the end of the queue. -/
def settleIn (g : ReferenceGraph α) (readersIn : α → List α) :
    Nat → (α → Int) → List α → List α → List α
  | 0, _, _, done => done
  | _, _, [], done => done
  | steps + 1, counters, n :: queue, done =>
    let c := (readersIn n).foldl g.count ⟨counters, []⟩
    settleIn g readersIn steps c.counters (queue ++ g.byRegistration c.ready) (done ++ [n])

/-- The order of the loop with counters, where the readers of each node are
gone through as they are given. -/
def orderIn (g : ReferenceGraph α) (readersIn : α → List α) : List α :=
  g.settleIn readersIn g.nodes.length (fun n => g.waitsFor n)
    (g.nodes.filter fun n => g.waitsFor n == 0) []

/-! ## One turn -/

/-- Distinct readers do not get in each other's way: each is counted down once,
and is ready if it waited for one node more. -/
theorem foldl_count (g : ReferenceGraph α) {readers : List α} (h : readers.Nodup)
    (c : Countdown α) :
    (∀ m, (readers.foldl g.count c).counters m =
      if m ∈ readers ∧ m ∈ g.nodes then c.counters m - 1 else c.counters m) ∧
    (readers.foldl g.count c).ready =
      c.ready ++ readers.filter fun m => decide (m ∈ g.nodes) && c.counters m == 1 := by
  induction readers generalizing c with
  | nil => simp
  | cons a rest ih =>
    obtain ⟨ha, hrest⟩ := List.nodup_cons.mp h
    obtain ⟨hcounters, hready⟩ := ih hrest (g.count c a)
    have hother : ∀ m ∈ rest, (g.count c a).counters m = c.counters m := by
      intro m hm
      have hne : m ≠ a := fun he => ha (he ▸ hm)
      unfold count
      split
      · exact Function.update_of_ne hne _ _
      · rfl
    have hfilter : rest.filter (fun m => decide (m ∈ g.nodes) && (g.count c a).counters m == 1) =
        rest.filter fun m => decide (m ∈ g.nodes) && c.counters m == 1 :=
      List.filter_congr fun m hm => by rw [hother m hm]
    rw [List.foldl_cons]
    refine ⟨fun m => ?_, ?_⟩
    · rw [hcounters]
      by_cases hm : m ∈ rest
      · simp [hm, hother m hm]
      · by_cases hma : m = a
        · subst hma
          by_cases hnode : m ∈ g.nodes <;> simp [count, hm, hnode]
        · by_cases hnode : a ∈ g.nodes <;> simp [count, hm, hma, hnode]
    · rw [hready, hfilter]
      by_cases hnode : a ∈ g.nodes
      · by_cases hone : c.counters a = 1
        · simp [count, hnode, hone]
        · have hzero : ¬ c.counters a - 1 = 0 := by omega
          simp [count, hnode, hone, hzero]
      · simp [count, hnode]

theorem waiting_snoc (g : ReferenceGraph α) (done : List α) (n m : α) :
    g.waiting (done ++ [n]) m =
      if m ∈ g.readersOf n then g.waiting done m - 1 else g.waiting done m := by
  unfold waiting
  by_cases h : m ∈ g.readersOf n
  · simp [h]
    omega
  · simp [h]

/-- Sorted by registration, the readers found ready are those that the node
sets free. -/
theorem byRegistration_eq_released (g : ReferenceGraph α) {done ready : List α} {n : α}
    (hnodup : ready.Nodup) (hmem : ∀ m, m ∈ ready ↔ m ∈ g.released done n) :
    g.byRegistration ready = g.released done n := by
  have hnodes : ∀ m ∈ g.released done n, m ∈ g.nodes := fun m hm => (List.mem_filter.mp hm).1
  have hperm : (g.byRegistration ready).Perm (g.released done n) :=
    (List.mergeSort_perm _ _).trans
      ((List.perm_ext_iff_of_nodup hnodup (g.nodes_nodup.filter _)).mpr hmem)
  have hsorted : (g.byRegistration ready).Pairwise fun a b =>
      decide (g.nodes.idxOf a ≤ g.nodes.idxOf b) = true :=
    List.pairwise_mergeSort (fun a b c => by simpa using Nat.le_trans)
      (fun a b => by simpa using Nat.le_total _ _) ready
  have hplaced : (g.released done n).Pairwise fun a b => g.nodes.idxOf a ≤ g.nodes.idxOf b :=
    ((pairwise_idxOf g.nodes_nodup).sublist List.filter_sublist).imp fun h => h.le
  refine hperm.eq_of_pairwise ?_ (hsorted.imp of_decide_eq_true) hplaced
  intro a b _ hb hab hba
  exact ((List.idxOf_inj (hnodes b hb)).mp (Nat.le_antisymm hba hab)).symm

/-! ## The whole loop -/

/-- The loop with counters takes the same turns as the loop without, in
whatever order it goes through the readers. -/
theorem settleIn_eq_settle (g : ReferenceGraph α) {readersIn : α → List α}
    (h : ∀ n, Enumerates (readersIn n) (g.readersOf n)) (steps : Nat) {counters : α → Int}
    {queue done : List α} (hcounters : ∀ m ∈ g.nodes, counters m = g.waiting done m) :
    g.settleIn readersIn steps counters queue done = g.settle steps queue done := by
  induction steps generalizing counters queue done with
  | zero => cases queue <;> rfl
  | succ steps ih =>
    cases queue with
    | nil => rfl
    | cons n queue =>
      obtain ⟨hnodup, hmem⟩ := h n
      obtain ⟨hdown, hready⟩ := foldl_count g hnodup ⟨counters, []⟩
      have hreleased : g.byRegistration ((readersIn n).foldl g.count ⟨counters, []⟩).ready =
          g.released done n := by
        rw [hready, List.nil_append]
        refine byRegistration_eq_released g (hnodup.filter _) fun m => ?_
        unfold released
        rw [List.mem_filter, List.mem_filter, hmem, waiting_snoc]
        by_cases hreads : m ∈ g.readersOf n
        · by_cases hnode : m ∈ g.nodes
          · simp [hreads, hnode, hcounters m hnode]
            omega
          · simp [hnode]
        · simp [hreads]
      rw [settleIn, settle, hreleased]
      refine ih fun m hm => ?_
      rw [hdown, waiting_snoc, ← hcounters m hm]
      simp [hmem, hm]

theorem orderIn_eq_order (g : ReferenceGraph α) {readersIn : α → List α}
    (h : ∀ n, Enumerates (readersIn n) (g.readersOf n)) : g.orderIn readersIn = g.order :=
  settleIn_eq_settle g h g.nodes.length fun m _ => by simp [waiting]

/-! ## The law -/

/-- The registrations tell of the same nodes, in the same order, that they read
the same; how what a node reads is listed may differ. -/
def SameReads (regs regs' : List (α × List α)) : Prop :=
  List.Forall₂ (fun p q => p.1 = q.1 ∧ ∀ d, d ∈ p.2 ↔ d ∈ q.2) regs regs'

omit [DecidableEq α] in
theorem SameReads.map_fst {regs regs' : List (α × List α)} (h : SameReads regs regs') :
    regs'.map Prod.fst = regs.map Prod.fst := by
  induction h with
  | nil => rfl
  | cons hpq _ ih => rw [List.map_cons, List.map_cons, ih, hpq.1]

omit [DecidableEq α] in
theorem SameReads.exists_iff {regs regs' : List (α × List α)} (h : SameReads regs regs')
    (n d : α) : (∃ ds, (n, ds) ∈ regs' ∧ d ∈ ds) ↔ ∃ ds, (n, ds) ∈ regs ∧ d ∈ ds := by
  induction h with
  | nil => simp
  | @cons p q regs regs' hpq _ ih =>
    obtain ⟨m, ds⟩ := p
    obtain ⟨m', ds'⟩ := q
    obtain ⟨rfl, hds⟩ : m = m' ∧ ∀ d, d ∈ ds ↔ d ∈ ds' := hpq
    simp only [List.mem_cons, Prod.mk.injEq, or_and_right, exists_or, and_assoc, ih,
      exists_and_left, exists_eq_left, hds]

omit [DecidableEq α] in
theorem SameReads.reads {regs regs' : List (α × List α)} (h : SameReads regs regs') :
    Reads regs' = Reads regs := by
  funext n d
  unfold Reads
  rw [h.exists_iff, h.map_fst]

/-- The order of distinct registrations is fixed by them, and not by the order
in which a set is gone through. It is the one arranged list of the nodes
that can be evaluated, and along it the longest chains of reads never become
shorter. -/
theorem order_fixed_by_registrations (regs : List (α × List α))
    (h : (regs.map Prod.fst).Nodup) :
    (∀ readersIn : α → List α,
      (∀ n, Enumerates (readersIn n) ((ofRegistrations regs).readersOf n)) →
        (ofRegistrations regs).orderIn readersIn = (ofRegistrations regs).order) ∧
      (∀ regs', SameReads regs regs' →
        (ofRegistrations regs').order = (ofRegistrations regs).order) ∧
      (∀ l, Arranged (Reads regs) (regs.map Prod.fst) l ↔ l = (ofRegistrations regs).order) ∧
      ∃ depth : α → Nat,
        (∀ n ∈ (ofRegistrations regs).order,
          IsGreatest {k | ReadChain (Reads regs) n k} (depth n)) ∧
        (ofRegistrations regs).order.Pairwise fun a b => depth a ≤ depth b := by
  have harranged : ∀ regs : List (α × List α), (regs.map Prod.fst).Nodup →
      Arranged (Reads regs) (regs.map Prod.fst) (ofRegistrations regs).order := by
    intro regs h
    obtain ⟨hg, hnodes, -⟩ := ofRegistrations_spec regs h
    rw [← readsNode_ofRegistrations regs h, ← hnodes]
    exact arranged_order hg
  have hregistered : ∀ n d, Reads regs n d → d ∈ regs.map Prod.fst := fun n d hd => hd.2
  refine ⟨fun readersIn => orderIn_eq_order _, fun regs' hsame => ?_, fun l => ⟨fun hl => ?_, ?_⟩,
    (harranged regs h).exists_depth h hregistered⟩
  · have h' : (regs'.map Prod.fst).Nodup := hsame.map_fst ▸ h
    have hother := harranged regs' h'
    rw [hsame.map_fst, hsame.reads] at hother
    exact hother.unique (harranged regs h) h hregistered
  · exact hl.unique (harranged regs h) h hregistered
  · rintro rfl
    exact harranged regs h

/-- Two nodes set free together, one set free later, and one above all three;
the readers are gone through from the newest to the oldest. -/
theorem order_of_six_with_a_tie :
    let regs : List (Nat × List Nat) :=
      [(5, [3, 4]), (4, [1]), (1, []), (3, [2, 1]), (2, [9]), (7, [1]), (6, [6])]
    let newestFirst := fun n => (firstOnly ((ofRegistrations regs).readersOf n)).reverse
    (regs.map Prod.fst).Nodup ∧
      (∀ n, Enumerates (newestFirst n) ((ofRegistrations regs).readersOf n)) ∧
      (ofRegistrations regs).orderIn newestFirst = [1, 2, 4, 7, 3, 5] ∧
      Arranged (Reads regs) [5, 4, 1, 3, 2, 7, 6] [1, 2, 4, 7, 3, 5] := by
  intro regs newestFirst
  have hnodup : (regs.map Prod.fst).Nodup := by decide
  have henumerates : ∀ n, Enumerates (newestFirst n) ((ofRegistrations regs).readersOf n) :=
    fun n => ⟨List.nodup_reverse.mpr (nodup_firstOnly _), fun a => by
      rw [List.mem_reverse, mem_firstOnly]⟩
  have horder : (ofRegistrations regs).order = [1, 2, 4, 7, 3, 5] := by decide
  obtain ⟨hin, -, harranged, -⟩ := order_fixed_by_registrations regs hnodup
  exact ⟨hnodup, henumerates, (hin newestFirst henumerates).trans horder,
    (harranged _).mpr horder.symm⟩

end Worksheet.ReferenceGraph
