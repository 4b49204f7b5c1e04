-- Maps of lists, and equal maps. A map that is made from a list of pairs
-- finds a pair of the list, and every pair of it when no key has two values;
-- renaming the keys changes nothing in that. A map is known by the order of
-- its keys and by what it finds.
import Worksheet.OrderedMap
import Mathlib.Data.List.Forall2
import Mathlib.Data.List.Induction

namespace Worksheet.OrderedMap

variable {κ ν : Type} [DecidableEq κ]

/-- The map of a longer list is the map of the list with one more insertion. -/
theorem ofList_snoc (l : List (κ × ν)) (p : κ × ν) :
    ofList (l ++ [p]) = (ofList l).insert p.1 p.2 := by
  simp [ofList, List.foldl_append]

theorem mem_of_get?_ofList {k : κ} {v : ν} {l : List (κ × ν)}
    (h : (ofList l).get? k = some v) : (k, v) ∈ l := by
  induction l using List.reverseRecOn with
  | nil => simp [ofList] at h
  | append_singleton l p ih =>
    rw [ofList_snoc, get?_insert] at h
    split at h
    · rename_i hk
      rw [Option.some.injEq] at h
      simp [← hk, ← h]
    · exact List.mem_append_left _ (ih h)

/-- In a list without two values for one key, every pair is found. -/
theorem get?_ofList {l : List (κ × ν)}
    (h : ∀ k v w, (k, v) ∈ l → (k, w) ∈ l → v = w) (k : κ) (v : ν) :
    (ofList l).get? k = some v ↔ (k, v) ∈ l := by
  refine ⟨mem_of_get?_ofList, fun hmem => ?_⟩
  induction l using List.reverseRecOn with
  | nil => simp at hmem
  | append_singleton l p ih =>
    rw [ofList_snoc, get?_insert]
    split
    · rename_i hk
      have hp : (k, p.2) ∈ l ++ [p] := by simp [← hk]
      rw [h k p.2 v hp hmem]
    · rename_i hk
      rw [List.mem_append, List.mem_singleton] at hmem
      rcases hmem with hmem | rfl
      · exact ih (fun k v w hv hw => h k v w (List.mem_append_left _ hv)
          (List.mem_append_left _ hw)) hmem
      · exact absurd rfl hk

/-! ## The pairs of a map -/

theorem lookup_eq_some_iff {l : List (κ × ν)} (hl : (l.map Prod.fst).Nodup) (k : κ) (v : ν) :
    lookup k l = some v ↔ (k, v) ∈ l := by
  induction l with
  | nil => simp [lookup]
  | cons p rest ih =>
    obtain ⟨a, w⟩ := p
    rw [List.map_cons, List.nodup_cons] at hl
    rw [List.mem_cons, Prod.mk.injEq, ← ih hl.2]
    by_cases h : a = k
    · subst h
      have hrest : lookup a rest = none := (lookup_eq_none_iff a rest).mpr hl.1
      simp [lookup, hrest, eq_comm]
    · have h' : ¬ k = a := fun e => h e.symm
      simp [lookup, h, h']

/-- A map finds the pairs that it holds. -/
theorem get?_eq_some_iff (m : OrderedMap κ ν) (k : κ) (v : ν) :
    m.get? k = some v ↔ (k, v) ∈ m.entries :=
  lookup_eq_some_iff m.distinct k v

/-- A map with its keys renamed, no two to one name, finds the same. -/
theorem get?_ofList_renamed {κ' : Type} [DecidableEq κ'] {f : κ → κ'}
    (hf : ∀ a b, f a = f b → a = b) (m : OrderedMap κ ν) (k : κ) :
    (ofList (m.entries.map fun p => (f p.1, p.2))).get? (f k) = m.get? k := by
  have hmem : ∀ a v, (f a, v) ∈ m.entries.map (fun p => (f p.1, p.2)) ↔ (a, v) ∈ m.entries := by
    intro a v
    simp only [List.mem_map, Prod.mk.injEq, Prod.exists]
    constructor
    · rintro ⟨b, w, hb, he, rfl⟩
      rw [← hf b a he]
      exact hb
    · intro h
      exact ⟨a, v, h, rfl, rfl⟩
  apply Option.ext
  intro v
  rw [get?_ofList ?_, hmem, get?_eq_some_iff]
  intro a' v w hv hw
  obtain ⟨⟨a, u⟩, -, he⟩ := List.mem_map.mp hv
  obtain ⟨rfl, rfl⟩ := Prod.mk.inj he
  rw [hmem, ← get?_eq_some_iff] at hv hw
  rw [hv, Option.some.injEq] at hw
  exact hw

/-- A value stands in a map if and only if some key has it. -/
theorem mem_values_iff (m : OrderedMap κ ν) (v : ν) : v ∈ m.values ↔ ∃ k, m.get? k = some v := by
  simp only [values, List.mem_map, get?_eq_some_iff, Prod.exists, exists_eq_right]

/-- A key stands in a map if and only if it has a value. -/
theorem mem_keys_iff (m : OrderedMap κ ν) (k : κ) : k ∈ m.keys ↔ ∃ v, m.get? k = some v := by
  rw [← Option.isSome_iff_exists, ← Option.ne_none_iff_isSome, ne_eq, get?_eq_none_iff, not_not]

/-! ## Equal maps -/

theorem eq_of_lookup {l l' : List (κ × ν)} (hkeys : l'.map Prod.fst = l.map Prod.fst)
    (hl : (l.map Prod.fst).Nodup) (h : ∀ k, lookup k l' = lookup k l) : l' = l := by
  induction l generalizing l' with
  | nil => simpa using hkeys
  | cons p rest ih =>
    obtain ⟨a, v⟩ := p
    cases l' with
    | nil => simp at hkeys
    | cons p' rest' =>
      obtain ⟨a', v'⟩ := p'
      simp only [List.map_cons, List.cons.injEq] at hkeys
      obtain ⟨rfl, hrest⟩ := hkeys
      rw [List.map_cons, List.nodup_cons] at hl
      have hv := h a'
      simp only [lookup, if_true, Option.some.injEq] at hv
      have htail : ∀ k, lookup k rest' = lookup k rest := by
        intro k
        by_cases hk : a' = k
        · subst hk
          rw [(lookup_eq_none_iff a' rest).mpr hl.1,
            (lookup_eq_none_iff a' rest').mpr (hrest ▸ hl.1)]
        · have := h k
          simpa only [lookup, hk, if_false] using this
      rw [hv, ih hrest hl.2 htail]

/-- Maps with the same keys in the same order that find the same are
equal. -/
theorem eq_of_keys_of_get? {m m' : OrderedMap κ ν} (hkeys : m'.keys = m.keys)
    (h : ∀ k, m'.get? k = m.get? k) : m' = m := by
  obtain ⟨l, hl⟩ := m
  obtain ⟨l', hl'⟩ := m'
  have he : l' = l := eq_of_lookup hkeys hl h
  subst he
  rfl

/-! ## Maps side by side -/

/-- The maps have the same keys in the same order, and their values are
related. -/
def Matches {ν' : Type} (R : ν → ν' → Prop) (m : OrderedMap κ ν) (m' : OrderedMap κ ν') : Prop :=
  List.Forall₂ (fun p q => p.1 = q.1 ∧ R p.2 q.2) m.entries m'.entries

namespace Matches

variable {ν' : Type} {R : ν → ν' → Prop} {m : OrderedMap κ ν} {m' : OrderedMap κ ν'}

omit [DecidableEq κ] in
theorem keys (h : Matches R m m') : m.keys = m'.keys := by
  have hkeys : List.Forall₂ (· = ·) m.keys m'.keys := by
    unfold OrderedMap.keys
    rw [List.forall₂_map_left_iff, List.forall₂_map_right_iff]
    exact h.imp fun _ _ hpq => hpq.1
  rwa [List.forall₂_eq_eq_eq] at hkeys

omit [DecidableEq κ] in
theorem values (h : Matches R m m') : List.Forall₂ R m.values m'.values := by
  unfold OrderedMap.values
  rw [List.forall₂_map_left_iff, List.forall₂_map_right_iff]
  exact h.imp fun _ _ hpq => hpq.2

omit [DecidableEq κ] in
/-- Each value of the one map stands for one of the other. -/
theorem exists_of_mem_values (h : Matches R m m') {w : ν'} (hw : w ∈ m'.values) :
    ∃ v ∈ m.values, R v w := by
  have hvalues := h.values
  generalize m.values = vs at *
  generalize m'.values = ws at *
  induction hvalues with
  | nil => cases hw
  | cons hvw _ ih =>
    rcases List.mem_cons.mp hw with rfl | hrest
    · exact ⟨_, List.mem_cons_self, hvw⟩
    · obtain ⟨v, hmem, hv⟩ := ih hrest
      exact ⟨v, List.mem_cons_of_mem _ hmem, hv⟩

/-- Related values for one key are put in the same place. -/
theorem insert (h : Matches R m m') (k : κ) {v : ν} {w : ν'} (hvw : R v w) :
    Matches R (m.insert k v) (m'.insert k w) := by
  have hput : ∀ {l : List (κ × ν)} {l' : List (κ × ν')},
      List.Forall₂ (fun p q => p.1 = q.1 ∧ R p.2 q.2) l l' →
      List.Forall₂ (fun p q => p.1 = q.1 ∧ R p.2 q.2) (put k v l) (put k w l') := by
    intro l l' hl
    induction hl with
    | nil => exact .cons ⟨rfl, hvw⟩ .nil
    | @cons p q rest rest' hpq hrest ih =>
      obtain ⟨a, u⟩ := p
      obtain ⟨b, u'⟩ := q
      obtain ⟨rfl, hu⟩ : a = b ∧ R u u' := hpq
      by_cases ha : a = k
      · simp only [put, if_pos ha]
        exact .cons ⟨rfl, hvw⟩ hrest
      · simp only [put, if_neg ha]
        exact .cons ⟨rfl, hu⟩ ih
  exact hput h

end Matches

end Worksheet.OrderedMap
