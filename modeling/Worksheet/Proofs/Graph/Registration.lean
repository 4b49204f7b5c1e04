-- The edges of a graph of references. An edge is kept twice: among what
-- its reader reads, and among the readers of what is read. As long as no
-- node is registered a second time, the two agree.
import Worksheet.ReferenceGraph
import Mathlib.Data.List.Induction
import Mathlib.Data.List.Nodup

namespace Worksheet

variable {α : Type} [DecidableEq α]

/-! ## Only the first of equal members -/

theorem mem_firstOnly (a : α) (l : List α) : a ∈ firstOnly l ↔ a ∈ l := by
  induction l with
  | nil => simp [firstOnly]
  | cons b rest ih =>
    by_cases h : a = b
    · simp [firstOnly, h]
    · simp [firstOnly, h, ih]

theorem nodup_firstOnly (l : List α) : (firstOnly l).Nodup := by
  induction l with
  | nil => exact List.nodup_nil
  | cons b rest ih =>
    rw [firstOnly, List.nodup_cons]
    exact ⟨by simp, ih.filter _⟩

namespace ReferenceGraph

/-! ## One registration -/

theorem mem_addReader (readers : OrderedMap α (List α)) (n reader m d : α) :
    m ∈ ((addReader readers n reader).get? d).getD [] ↔
      m ∈ (readers.get? d).getD [] ∨ (m = reader ∧ d = n) := by
  unfold addReader
  rw [OrderedMap.get?_insert]
  by_cases h : n = d
  · subst h
    by_cases hr : reader ∈ (readers.get? n).getD []
    · simp only [hr, decide_true, if_true, Option.getD_some, and_true]
      constructor
      · exact Or.inl
      · rintro (hm | rfl)
        · exact hm
        · exact hr
    · simp [hr]
  · have h' : ¬ d = n := fun e => h e.symm
    simp [h, h']

theorem mem_foldl_addReader (ds : List α) (readers : OrderedMap α (List α)) (n m d : α) :
    m ∈ ((ds.foldl (fun readers r => addReader readers r n) readers).get? d).getD [] ↔
      m ∈ (readers.get? d).getD [] ∨ (m = n ∧ d ∈ ds) := by
  induction ds generalizing readers with
  | nil => simp
  | cons r rest ih =>
    rw [List.foldl_cons, ih, mem_addReader, List.mem_cons]
    constructor
    · rintro ((h | h) | h)
      · exact Or.inl h
      · exact Or.inr ⟨h.1, Or.inl h.2⟩
      · exact Or.inr ⟨h.1, Or.inr h.2⟩
    · rintro (h | ⟨h, hd | hd⟩)
      · exact Or.inl (Or.inl h)
      · exact Or.inl (Or.inr ⟨h, hd⟩)
      · exact Or.inr ⟨h, hd⟩

/-- A registration adds its node to the readers of what it reads, and
takes no reader away. -/
theorem mem_readersOf_register (g : ReferenceGraph α) (n m d : α) (ds : List α) :
    m ∈ (g.register n ds).readersOf d ↔ m ∈ g.readersOf d ∨ (m = n ∧ d ∈ ds) := by
  unfold readersOf register
  rw [mem_foldl_addReader, mem_firstOnly]

/-- A registration replaces what its node reads, and nothing else. -/
theorem readsOf_register (g : ReferenceGraph α) (n m : α) (ds : List α) :
    (g.register n ds).readsOf m = if n = m then firstOnly ds else g.readsOf m := by
  unfold readsOf register
  rw [OrderedMap.get?_insert]
  split
  · rfl
  · rfl

theorem nodes_register (g : ReferenceGraph α) (n : α) (ds : List α) :
    (g.register n ds).nodes = if n ∈ g.nodes then g.nodes else g.nodes ++ [n] :=
  OrderedMap.keys_insert _ _ _

omit [DecidableEq α] in
theorem nodes_nodup (g : ReferenceGraph α) : g.nodes.Nodup := g.reads.keys_nodup

/-- Only registered nodes read. -/
theorem readsOf_eq_nil {g : ReferenceGraph α} {n : α} (h : n ∉ g.nodes) : g.readsOf n = [] := by
  unfold readsOf
  rw [(OrderedMap.get?_eq_none_iff _ _).mpr h]
  rfl

theorem mem_nodes_of_mem_readsOf {g : ReferenceGraph α} {n d : α} (h : d ∈ g.readsOf n) :
    n ∈ g.nodes := by
  by_contra hn
  rw [readsOf_eq_nil hn] at h
  exact List.not_mem_nil h

/-! ## The two sides of an edge -/

/-- Every edge is known from both of its ends, and stands once among what
its reader reads. -/
structure Consistent (g : ReferenceGraph α) : Prop where
  mem_readersOf : ∀ m d, m ∈ g.readersOf d ↔ d ∈ g.readsOf m
  nodup_readsOf : ∀ n, (g.readsOf n).Nodup

theorem consistent_empty : Consistent (empty : ReferenceGraph α) := by
  constructor
  · intro m d
    simp [readersOf, readsOf, empty]
  · intro n
    simp [readsOf, empty]

/-- The first registration of a node keeps the two sides in agreement. -/
theorem Consistent.register {g : ReferenceGraph α} (h : Consistent g) {n : α}
    (hn : n ∉ g.nodes) (ds : List α) : Consistent (g.register n ds) := by
  constructor
  · intro m d
    rw [mem_readersOf_register, readsOf_register, h.mem_readersOf]
    by_cases hm : n = m
    · subst hm
      simp [readsOf_eq_nil hn, mem_firstOnly]
    · have hm' : ¬ m = n := fun e => hm e.symm
      simp [hm, hm']
  · intro m
    rw [readsOf_register]
    split
    · exact nodup_firstOnly ds
    · exact h.nodup_readsOf m

/-! ## A run of registrations -/

/-- The graph of registrations, from the first to the last: nodes, each
with the nodes that it reads. -/
def ofRegistrations (regs : List (α × List α)) : ReferenceGraph α :=
  regs.foldl (fun g p => g.register p.1 p.2) empty

theorem ofRegistrations_snoc (regs : List (α × List α)) (p : α × List α) :
    ofRegistrations (regs ++ [p]) = (ofRegistrations regs).register p.1 p.2 := by
  simp [ofRegistrations, List.foldl_append]

/-- What a run of registrations of distinct nodes leaves behind. -/
theorem ofRegistrations_spec (regs : List (α × List α)) (h : (regs.map Prod.fst).Nodup) :
    Consistent (ofRegistrations regs) ∧
      (ofRegistrations regs).nodes = regs.map Prod.fst ∧
      ∀ n d, d ∈ (ofRegistrations regs).readsOf n ↔ ∃ ds, (n, ds) ∈ regs ∧ d ∈ ds := by
  induction regs using List.reverseRecOn with
  | nil =>
    refine ⟨consistent_empty, rfl, fun n d => ?_⟩
    simp [ofRegistrations, readsOf, empty]
  | append_singleton regs p ih =>
    obtain ⟨n, ds⟩ := p
    rw [List.map_append, List.nodup_append] at h
    obtain ⟨hnodup, -, hnew⟩ := h
    obtain ⟨hc, hnodes, hreads⟩ := ih hnodup
    have hn : n ∉ (ofRegistrations regs).nodes := by
      rw [hnodes]
      intro hmem
      exact hnew n hmem n (by simp) rfl
    rw [ofRegistrations_snoc]
    refine ⟨hc.register hn ds, ?_, fun m d => ?_⟩
    · rw [nodes_register, if_neg hn, hnodes]
      simp
    · rw [readsOf_register]
      by_cases hm : n = m
      · subst hm
        have hfresh : ∀ es, (n, es) ∉ regs := by
          intro es hes
          rw [hnodes] at hn
          exact hn (List.mem_map_of_mem (f := Prod.fst) hes)
        simp [mem_firstOnly, hfresh]
      · have hm' : ¬ m = n := fun e => hm e.symm
        simp [hm, hm', hreads]

end ReferenceGraph

end Worksheet
