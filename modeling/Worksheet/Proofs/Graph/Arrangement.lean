-- What fixes the order of evaluation. The queue hands out the nodes in the
-- order in which they came in. So a node stands behind another one when the
-- latest of the nodes that it reads does, and the order of registration
-- decides between nodes that came in together. No other list is arranged like
-- this, and along it chains of reads never become shorter.
import Mathlib.Order.Bounds.Basic
import Mathlib.Order.Lattice.Nat
import Worksheet.Proofs.Graph.Order

open Relation

namespace Worksheet.ReferenceGraph

variable {α : Type} [DecidableEq α]

/-! ## Arranged lists -/

/-- Of all that `n` reads, `d` stands latest in the list. -/
def LatestRead (r : α → α → Prop) (l : List α) (n d : α) : Prop :=
  r n d ∧ ∀ e, r n e → l.idxOf e ≤ l.idxOf d

/-- The latest of the nodes that `a` reads stands before that of `b`, or they
read the same node latest and `a` was registered first. -/
def ReadsBefore (r : α → α → Prop) (nodes l : List α) (a b : α) : Prop :=
  ∃ d e, LatestRead r l a d ∧ LatestRead r l b e ∧
    (l.idxOf d < l.idxOf e ∨ d = e ∧ nodes.idxOf a < nodes.idxOf b)

/-- The list of the nodes that can be evaluated: first those that read no
node, as they were registered, and then the others by what they read. -/
structure Arranged (r : α → α → Prop) (nodes l : List α) : Prop where
  nodup : l.Nodup
  mem_iff : ∀ n, n ∈ l ↔ n ∈ nodes ∧ ¬ ReachesCycle r n
  exists_parts : ∃ free rest, l = free ++ rest ∧ free.Sublist nodes ∧
    (∀ n, n ∈ free ↔ n ∈ nodes ∧ ∀ d, ¬ r n d) ∧ rest.Pairwise (ReadsBefore r nodes l)

/-- The order of an arranged list, in one relation for any two members. -/
inductive Precedes (r : α → α → Prop) (nodes l : List α) (a b : α) : Prop
  | free : (∀ d, ¬ r a d) → (∀ d, ¬ r b d) → nodes.idxOf a < nodes.idxOf b → Precedes r nodes l a b
  | starts {e : α} : (∀ d, ¬ r a d) → r b e → Precedes r nodes l a b
  | reads : ReadsBefore r nodes l a b → Precedes r nodes l a b

section

variable {r : α → α → Prop} {nodes l : List α} {a b d e n : α}

theorem exists_latestRead (l : List α) (h : r n d) : ∃ e, LatestRead r l n e := by
  have hsome : {k | ∃ x, r n x ∧ l.idxOf x = k}.Nonempty := ⟨_, d, h, rfl⟩
  have hbound : ∀ k ∈ {k | ∃ x, r n x ∧ l.idxOf x = k}, k ≤ l.length := by
    rintro k ⟨x, -, rfl⟩
    exact List.idxOf_le_length
  obtain ⟨e, he, hplace⟩ := Nat.sSup_mem hsome ⟨_, hbound⟩
  exact ⟨e, he, fun x hx => hplace ▸ le_csSup ⟨_, hbound⟩ ⟨x, hx, rfl⟩⟩

theorem LatestRead.idxOf_eq (h : LatestRead r l n d) (h' : LatestRead r l n e) :
    l.idxOf d = l.idxOf e := Nat.le_antisymm (h'.2 d h.1) (h.2 e h'.1)

/-- What is read of a beginning of the list stands there latest as well. -/
theorem latestRead_append_iff (tail : List α) (h : ∀ x, r n x → x ∈ l) :
    LatestRead r (l ++ tail) n d ↔ LatestRead r l n d := by
  have hplace : ∀ x, r n x → (l ++ tail).idxOf x = l.idxOf x := fun x hx =>
    List.idxOf_append_of_mem (h x hx)
  constructor
  · rintro ⟨hd, hall⟩
    refine ⟨hd, fun x hx => ?_⟩
    rw [← hplace x hx, ← hplace d hd]
    exact hall x hx
  · rintro ⟨hd, hall⟩
    refine ⟨hd, fun x hx => ?_⟩
    rw [hplace x hx, hplace d hd]
    exact hall x hx

theorem readsBefore_append_iff (tail : List α) (ha : ∀ x, r a x → x ∈ l)
    (hb : ∀ x, r b x → x ∈ l) :
    ReadsBefore r nodes (l ++ tail) a b ↔ ReadsBefore r nodes l a b := by
  unfold ReadsBefore
  simp only [latestRead_append_iff tail ha, latestRead_append_iff tail hb]
  have hplace : ∀ x ∈ l, (l ++ tail).idxOf x = l.idxOf x := fun x hx =>
    List.idxOf_append_of_mem hx
  constructor
  · rintro ⟨d, e, hd, he, hde⟩
    rw [hplace d (ha d hd.1), hplace e (hb e he.1)] at hde
    exact ⟨d, e, hd, he, hde⟩
  · rintro ⟨d, e, hd, he, hde⟩
    rw [← hplace d (ha d hd.1), ← hplace e (hb e he.1)] at hde
    exact ⟨d, e, hd, he, hde⟩

theorem precedes_append_iff (tail : List α) (ha : ∀ x, r a x → x ∈ l)
    (hb : ∀ x, r b x → x ∈ l) :
    Precedes r nodes (l ++ tail) a b ↔ Precedes r nodes l a b := by
  constructor
  · rintro (⟨ha', hb', hlt⟩ | ⟨ha', hb'⟩ | h)
    · exact .free ha' hb' hlt
    · exact .starts ha' hb'
    · exact .reads ((readsBefore_append_iff tail ha hb).mp h)
  · rintro (⟨ha', hb', hlt⟩ | ⟨ha', hb'⟩ | h)
    · exact .free ha' hb' hlt
    · exact .starts ha' hb'
    · exact .reads ((readsBefore_append_iff tail ha hb).mpr h)

/-- Behind a node that reads, only nodes that read can stand. -/
theorem Precedes.readsBefore (h : Precedes r nodes l a b) (hread : r a d) :
    ReadsBefore r nodes l a b := by
  cases h with
  | free ha _ _ => exact absurd hread (ha d)
  | starts ha _ => exact absurd hread (ha d)
  | reads h => exact h

theorem ReadsBefore.asymm (h : ReadsBefore r nodes l a b) : ¬ ReadsBefore r nodes l b a := by
  rintro ⟨e', d', he', hd', h'⟩
  obtain ⟨d, e, hd, he, h⟩ := h
  have hdd := hd.idxOf_eq hd'
  have hee := he.idxOf_eq he'
  rcases h with h | ⟨rfl, h⟩
  · rcases h' with h' | ⟨rfl, -⟩
    · omega
    · omega
  · rcases h' with h' | ⟨-, h'⟩
    · omega
    · omega

theorem Precedes.asymm (h : Precedes r nodes l a b) : ¬ Precedes r nodes l b a := by
  intro h'
  cases h with
  | free ha hb hlt =>
    cases h' with
    | free _ _ hlt' => omega
    | starts _ hread => exact ha _ hread
    | reads h' =>
      obtain ⟨e, -, he, -⟩ := h'
      exact hb e he.1
  | starts ha hread =>
    obtain ⟨-, d, -, hd, -⟩ := h'.readsBefore hread
    exact ha d hd.1
  | reads h =>
    have ⟨_, e, _, he, _⟩ := h
    exact h.asymm (h'.readsBefore he.1)

end

theorem rel_of_idxOf_lt {R : α → α → Prop} {l : List α} (h : l.Pairwise R) {a b : α}
    (hb : b ∈ l) (hlt : l.idxOf a < l.idxOf b) : R a b := by
  have hb' := List.idxOf_lt_length_of_mem hb
  have hab := List.pairwise_iff_getElem.mp h _ _ (hlt.trans hb') hb' hlt
  rwa [List.getElem_idxOf, List.getElem_idxOf] at hab

/-- The members of a list stand in the order of their places. -/
theorem pairwise_idxOf {l : List α} (h : l.Nodup) :
    l.Pairwise fun a b => l.idxOf a < l.idxOf b := by
  rw [List.pairwise_iff_getElem]
  intro i j hi hj hij
  rw [h.idxOf_getElem, h.idxOf_getElem]
  exact hij

namespace Arranged

variable {r : α → α → Prop} {nodes l l' : List α} {a b d n : α}

theorem pairwise (h : Arranged r nodes l) (hnodes : nodes.Nodup) :
    l.Pairwise (Precedes r nodes l) := by
  obtain ⟨free, rest, hl, hsub, hfree, hrest⟩ := h.exists_parts
  have hreads : ∀ b ∈ rest, ∃ e, r b e := by
    intro b hb
    by_contra hnone
    have hmem : b ∈ l := hl ▸ List.mem_append_right free hb
    have hnodup := hl ▸ h.nodup
    have hb' : b ∈ free :=
      (hfree b).mpr ⟨((h.mem_iff b).mp hmem).1, fun d hd => hnone ⟨d, hd⟩⟩
    exact (List.nodup_append.mp hnodup).2.2 b hb' b hb rfl
  conv => arg 2; rw [hl]
  rw [List.pairwise_append]
  refine ⟨?_, hrest.imp .reads, fun a ha b hb => ?_⟩
  · refine (pairwise_idxOf hnodes).sublist hsub |>.imp_of_mem ?_
    intro a b ha hb hlt
    exact .free ((hfree a).mp ha).2 ((hfree b).mp hb).2 hlt
  · obtain ⟨e, he⟩ := hreads b hb
    exact .starts ((hfree a).mp ha).2 he

theorem mem_of_reads (h : Arranged r nodes l) (hr : ∀ n d, r n d → d ∈ nodes) (hn : n ∈ l)
    (hd : r n d) : d ∈ l := by
  refine (h.mem_iff d).mpr ⟨hr n d hd, ?_⟩
  rintro ⟨c, hreach, hcycle⟩
  exact ((h.mem_iff n).mp hn).2 ⟨c, hreach.head hd, hcycle⟩

theorem not_reads_self (h : Arranged r nodes l) (hn : n ∈ l) : ¬ r n n := fun hself =>
  ((h.mem_iff n).mp hn).2 ⟨n, .refl, .single hself⟩

/-- What a node reads stands before it. Otherwise the latest node that it
reads would read a still later one, and so on without an end. -/
theorem idxOf_lt (h : Arranged r nodes l) (hnodes : nodes.Nodup)
    (hr : ∀ n d, r n d → d ∈ nodes) (hn : n ∈ l) (hd : r n d) : l.idxOf d < l.idxOf n := by
  induction hk : l.length - l.idxOf n using Nat.strong_induction_on generalizing n d with
  | _ k ih =>
    by_contra hle
    obtain ⟨e, he⟩ := exists_latestRead l hd
    have hemem := h.mem_of_reads hr hn he.1
    have hne : n ≠ e := fun hne => h.not_reads_self hn (hne ▸ he.1)
    have hlt : l.idxOf n < l.idxOf e := by
      have := he.2 d hd
      have hplace : l.idxOf n ≠ l.idxOf e := fun hp => hne (List.idxOf_inj hn |>.mp hp)
      omega
    obtain ⟨e', x, he', hx, hex⟩ :=
      (rel_of_idxOf_lt (h.pairwise hnodes) hemem hlt).readsBefore hd
    have hsame := he.idxOf_eq he'
    have hlt' := List.idxOf_lt_length_of_mem hemem
    have hback := ih (l.length - l.idxOf e) (by omega) hemem hx.1 rfl
    rcases hex with hex | ⟨rfl, -⟩
    · omega
    · omega

theorem readFirst (h : Arranged r nodes l) (hnodes : nodes.Nodup)
    (hr : ∀ n d, r n d → d ∈ nodes) {head tail : List α} (hl : l = head ++ n :: tail)
    (hd : r n d) : d ∈ head := by
  have hn : n ∉ head := by
    have hnodup := hl ▸ h.nodup
    exact fun hmem => (List.nodup_append.mp hnodup).2.2 n hmem n (by simp) rfl
  have hlt := h.idxOf_lt hnodes hr (by simp [hl]) hd
  rw [hl, List.idxOf_append_of_notMem hn, List.idxOf_cons_self, Nat.add_zero] at hlt
  by_contra hout
  rw [List.idxOf_append_of_notMem hout] at hlt
  omega

/-- A node that is still to come stands behind the next one. -/
theorem precedes_next (h : Arranged r nodes l) (hnodes : nodes.Nodup)
    (hr : ∀ n d, r n d → d ∈ nodes) {head tail : List α} (hl : l = head ++ a :: tail)
    (hb : b ∈ tail) (hread : ∀ d, r b d → d ∈ head) : Precedes r nodes head a b := by
  have hpairwise := h.pairwise hnodes
  rw [hl, List.pairwise_append] at hpairwise
  have hab := (List.pairwise_cons.mp hpairwise.2.1).1 b hb
  exact (precedes_append_iff _ (fun d hd => h.readFirst hnodes hr hl hd) hread).mp hab

/-- Lists that are arranged by the same reads and the same registrations go
on in the same way, however far they have agreed. -/
theorem eq_of_append (h : Arranged r nodes l) (h' : Arranged r nodes l') (hnodes : nodes.Nodup)
    (hr : ∀ n d, r n d → d ∈ nodes) (tail : List α) {head tail' : List α}
    (hl : l = head ++ tail) (hl' : l' = head ++ tail') : tail = tail' := by
  have hperm : l.Perm l' := (List.perm_ext_iff_of_nodup h.nodup h'.nodup).mpr fun x =>
    (h.mem_iff x).trans (h'.mem_iff x).symm
  have htail : tail.Perm tail' := by
    rw [hl, hl'] at hperm
    exact (List.perm_append_left_iff head).mp hperm
  induction tail generalizing head tail' with
  | nil => exact htail.symm.eq_nil.symm
  | cons x tail ih =>
    cases tail' with
    | nil => exact htail.eq_nil
    | cons y tail' =>
      by_cases hxy : x = y
      · subst hxy
        have hnext : l = (head ++ [x]) ++ tail := by simp [hl]
        have hnext' : l' = (head ++ [x]) ++ tail' := by simp [hl']
        exact congrArg _ (ih hnext hnext' ((List.perm_cons x).mp htail))
      · -- each of the two would stand before the other
        have hy : y ∈ tail := (List.mem_cons.mp (htail.mem_iff.mpr (by simp))).resolve_left
          (Ne.symm hxy)
        have hx : x ∈ tail' := (List.mem_cons.mp (htail.mem_iff.mp (by simp))).resolve_left hxy
        have hbefore := h.precedes_next hnodes hr hl hy fun d hd => h'.readFirst hnodes hr hl' hd
        have hbehind := h'.precedes_next hnodes hr hl' hx fun d hd => h.readFirst hnodes hr hl hd
        exact absurd hbehind hbefore.asymm

/-- No two lists are arranged alike. -/
theorem unique (h : Arranged r nodes l) (h' : Arranged r nodes l') (hnodes : nodes.Nodup)
    (hr : ∀ n d, r n d → d ∈ nodes) : l = l' :=
  h.eq_of_append h' hnodes hr l (List.nil_append l).symm (List.nil_append l').symm

end Arranged

/-! ## Chains of reads -/

/-- From `a`, a chain of `k` reads leads down. -/
inductive ReadChain (r : α → α → Prop) : α → Nat → Prop
  | stop (a : α) : ReadChain r a 0
  | read {a d : α} {k : Nat} : r a d → ReadChain r d k → ReadChain r a (k + 1)

namespace Arranged

variable {r : α → α → Prop} {nodes l : List α} {a b n : α} {k : Nat}

theorem le_idxOf_of_readChain (h : Arranged r nodes l) (hnodes : nodes.Nodup)
    (hr : ∀ n d, r n d → d ∈ nodes) (hchain : ReadChain r n k) (hn : n ∈ l) :
    k ≤ l.idxOf n := by
  induction hchain with
  | stop n => exact Nat.zero_le _
  | read hread _ ih =>
    have hlt := h.idxOf_lt hnodes hr hn hread
    have := ih (h.mem_of_reads hr hn hread)
    omega

/-- A chain from one node is matched by a chain from each node behind it: the
latest node that is read there does not stand before what the chain reads. -/
theorem readChain_of_idxOf_le (h : Arranged r nodes l) (hnodes : nodes.Nodup)
    (hr : ∀ n d, r n d → d ∈ nodes) (hchain : ReadChain r a k) (ha : a ∈ l) (hb : b ∈ l)
    (hle : l.idxOf a ≤ l.idxOf b) : ReadChain r b k := by
  induction hchain generalizing b with
  | stop a => exact .stop b
  | @read a d k hread hrest ih =>
    rcases Nat.eq_or_lt_of_le hle with he | hlt
    · obtain rfl := (List.idxOf_inj ha).mp he
      exact .read hread hrest
    · obtain ⟨x, e, hx, he, hxe⟩ :=
        (rel_of_idxOf_lt (h.pairwise hnodes) hb hlt).readsBefore hread
      have hxe' : l.idxOf x ≤ l.idxOf e := by
        rcases hxe with hxe | ⟨rfl, -⟩
        · exact hxe.le
        · exact le_rfl
      exact .read he.1 (ih (h.mem_of_reads hr ha hread) (h.mem_of_reads hr hb he.1)
        ((hx.2 d hread).trans hxe'))

/-- Along an arranged list, the longest chains of reads never become
shorter. -/
theorem exists_depth (h : Arranged r nodes l) (hnodes : nodes.Nodup)
    (hr : ∀ n d, r n d → d ∈ nodes) :
    ∃ depth : α → Nat, (∀ n ∈ l, IsGreatest {k | ReadChain r n k} (depth n)) ∧
      l.Pairwise fun a b => depth a ≤ depth b := by
  have hgreatest : ∀ n ∈ l, IsGreatest {k | ReadChain r n k} (sSup {k | ReadChain r n k}) := by
    intro n hn
    have hbound : ∀ k ∈ {k | ReadChain r n k}, k ≤ l.idxOf n := fun k hk =>
      h.le_idxOf_of_readChain hnodes hr hk hn
    exact ⟨Nat.sSup_mem ⟨0, .stop n⟩ ⟨_, hbound⟩, fun k hk => le_csSup ⟨_, hbound⟩ hk⟩
  refine ⟨fun n => sSup {k | ReadChain r n k}, hgreatest, ?_⟩
  refine (pairwise_idxOf h.nodup).imp_of_mem fun {a b} ha hb hlt => ?_
  exact (hgreatest b hb).2 (h.readChain_of_idxOf_le hnodes hr (hgreatest a ha).1 ha hb hlt.le)

end Arranged

/-! ## The loop arranges the nodes -/

/-- The nodes done and those in the queue begin with the nodes that read no
node, and stand in the order of what they read among the nodes done. -/
structure InTurn (g : ReferenceGraph α) (queue done : List α) : Prop where
  begins : (g.nodes.filter fun n => g.waitsFor n == 0) <+: done ++ queue
  sorted : (done ++ queue).Pairwise (Precedes g.ReadsNode g.nodes done)

theorem mem_start_iff (g : ReferenceGraph α) (n : α) :
    n ∈ (g.nodes.filter fun n => g.waitsFor n == 0) ↔ n ∈ g.nodes ∧ ∀ d, ¬ g.ReadsNode n d := by
  rw [List.mem_filter, beq_iff_eq, waitsFor_eq_zero_iff]
  simp [Ready]

theorem inTurn_start (g : ReferenceGraph α) :
    InTurn g (g.nodes.filter fun n => g.waitsFor n == 0) [] := by
  refine ⟨List.prefix_rfl, ?_⟩
  refine ((pairwise_idxOf g.nodes_nodup).sublist List.filter_sublist).imp_of_mem ?_
  intro a b ha hb hlt
  exact .free ((mem_start_iff g a).mp ha).2 ((mem_start_iff g b).mp hb).2 hlt

/-- What the last node done sets free reads that node latest. -/
theorem latestRead_of_mem_released {g : ReferenceGraph α} (hg : Consistent g) {done : List α}
    {n m : α} (hdone : (done ++ [n]).Nodup) (hsub : ∀ d ∈ done ++ [n], d ∈ g.nodes)
    (hm : m ∈ g.released done n) : LatestRead g.ReadsNode (done ++ [n]) m n := by
  obtain ⟨-, hread, hready⟩ := (mem_released_iff hg hdone hsub m).mp hm
  refine ⟨⟨hread, hsub n (by simp)⟩, fun e he => ?_⟩
  have hn : n ∉ done := fun hmem => (List.nodup_append.mp hdone).2.2 n hmem n (by simp) rfl
  have hlt := List.idxOf_lt_length_of_mem (hready e he)
  rw [List.length_append, List.length_singleton] at hlt
  rw [List.idxOf_append_of_notMem hn, List.idxOf_cons_self]
  omega

/-- One turn of the loop keeps the order. -/
theorem InTurn.step {g : ReferenceGraph α} (hg : Consistent g) {n : α} {queue done : List α}
    (hs : Sound g (n :: queue) done) (h : InTurn g (n :: queue) done) :
    InTurn g (queue ++ g.released done n) (done ++ [n]) := by
  have hsplit : (done ++ [n]) ++ (queue ++ g.released done n) =
      (done ++ n :: queue) ++ g.released done n := by simp
  have hready : ∀ m ∈ done ++ n :: queue, ∀ d, g.ReadsNode m d → d ∈ done := fun m hm =>
    (hs.mem_iff m (hs.registered m hm)).mp hm
  have hdone : (done ++ [n]).Sublist (done ++ n :: queue) := by simp
  have hlatest : ∀ m ∈ g.released done n, LatestRead g.ReadsNode (done ++ [n]) m n := fun m =>
    latestRead_of_mem_released hg (hs.nodup.sublist hdone) fun d hd =>
      hs.registered d (hdone.subset hd)
  refine ⟨?_, ?_⟩
  · rw [hsplit]
    exact h.begins.trans (List.prefix_append _ _)
  · rw [hsplit, List.pairwise_append]
    refine ⟨?_, ?_, fun a ha b hb => ?_⟩
    · refine h.sorted.imp_of_mem fun {a b} ha hb hab => ?_
      exact (precedes_append_iff _ (hready a ha) (hready b hb)).mpr hab
    · refine ((pairwise_idxOf g.nodes_nodup).sublist List.filter_sublist).imp_of_mem ?_
      intro a b ha hb hlt
      exact .reads ⟨n, n, hlatest a ha, hlatest b hb, Or.inr ⟨rfl, hlt⟩⟩
    · by_cases hreads : ∃ d, g.ReadsNode a d
      · obtain ⟨d, hd⟩ := hreads
        obtain ⟨e, he⟩ := exists_latestRead (done ++ [n]) hd
        refine .reads ⟨e, n, he, hlatest b hb, Or.inl ?_⟩
        have hn : n ∉ done := fun hmem =>
          (List.nodup_append.mp hs.nodup).2.2 n hmem n (by simp) rfl
        have hedone := hready a ha e he.1
        rw [List.idxOf_append_of_mem hedone, List.idxOf_append_of_notMem hn]
        exact Nat.lt_add_right _ (List.idxOf_lt_length_of_mem hedone)
      · exact .starts (fun d hd => hreads ⟨d, hd⟩) (hlatest b hb).1

theorem InTurn.settles {g : ReferenceGraph α} (hg : Consistent g) {queue done result : List α}
    (hs : Sound g queue done) (h : InTurn g queue done) (hrun : Settles g queue done result) :
    InTurn g [] result := by
  induction hrun with
  | finished done => exact h
  | turn _ ih => exact ih (hs.step hg) (h.step hg hs)

theorem arranged_order {g : ReferenceGraph α} (hg : Consistent g) :
    Arranged g.ReadsNode g.nodes g.order := by
  obtain ⟨⟨rest, hrest⟩, hsorted⟩ :=
    (inTurn_start g).settles hg (sound_start g) (finishes_order hg)
  rw [List.append_nil] at hrest hsorted
  refine ⟨order_nodup hg, fun n => ?_, _, rest, hrest.symm, List.filter_sublist,
    mem_start_iff g, ?_⟩
  · rw [← mem_blocked_iff_reachesCycle hg, mem_blocked_iff]
    constructor
    · exact fun hn => ⟨mem_nodes_of_mem_order hg hn, fun hout => hout.2 hn⟩
    · rintro ⟨hn, hin⟩
      by_contra hout
      exact hin ⟨hn, hout⟩
  · have hsub : rest.Sublist g.order := hrest ▸ List.sublist_append_right _ rest
    refine (hsorted.sublist hsub).imp_of_mem fun {a b} ha _ hab => ?_
    -- what stands in the rest is not among the nodes that read no node
    have hstart : a ∉ g.nodes.filter fun n => g.waitsFor n == 0 := by
      have hnodup := hrest ▸ order_nodup hg
      exact fun hmem => (List.nodup_append.mp hnodup).2.2 a hmem a ha rfl
    rw [mem_start_iff] at hstart
    push Not at hstart
    obtain ⟨d, hd⟩ := hstart (mem_nodes_of_mem_order hg (hsub.subset ha))
    exact hab.readsBefore hd

end Worksheet.ReferenceGraph
