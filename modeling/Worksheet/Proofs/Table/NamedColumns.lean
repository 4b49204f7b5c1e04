-- Columns by their names. Where no two columns have one name, a name says the
-- same as a position: the references of the columns, the cycles among them and
-- what an expression reads can all be told by names alone.
import Worksheet.Proofs.Table.FailedCells
import Mathlib.Algebra.Ring.Nat

open Relation

namespace Worksheet

/-- Cycles are reached wherever a map keeps the edges. -/
theorem ReachesCycle.map {α β : Type} {r : α → α → Prop} {r' : β → β → Prop} (f : α → β)
    (h : ∀ a b, r a b → r' (f a) (f b)) {a : α} (hr : ReachesCycle r a) :
    ReachesCycle r' (f a) := by
  obtain ⟨c, hwalk, hcycle⟩ := hr
  exact ⟨f c, ReflTransGen.lift f h a c hwalk, TransGen.lift f h c c hcycle⟩

namespace Table

/-! ## The column of a name -/

/-- No two columns have one name. -/
def Distinct (t : Table) : Prop := (t.columns.map Column.name).Nodup

theorem named_eq_some {t : Table} {name : String} {c : Column} (h : t.named name = some c) :
    ∃ i, t.position? name = some i ∧ t.columns[i]? = some c ∧ c.name = name := by
  unfold named at h
  rw [Option.bind_eq_some_iff] at h
  obtain ⟨i, hi, hc⟩ := h
  obtain ⟨d, hd, hname, -⟩ := (position?_eq_some_iff t name i).mp hi
  rw [hc, Option.some.injEq] at hd
  exact ⟨i, hi, hc, hd ▸ hname⟩

/-- There is a column where a name stands. -/
theorem exists_named {t : Table} {name : String} {i : Nat} (h : t.position? name = some i) :
    ∃ c, t.named name = some c ∧ t.columns[i]? = some c := by
  obtain ⟨c, hc, -⟩ := (position?_eq_some_iff t name i).mp h
  exact ⟨c, (named_of_position h).trans hc, hc⟩

theorem Distinct.position? {t : Table} (h : t.Distinct) {i : Nat} {c : Column}
    (hc : t.columns[i]? = some c) : t.position? c.name = some i := by
  rw [position?_eq_some_iff]
  refine ⟨c, hc, rfl, fun j d hij hd hname => ?_⟩
  have hlt : i < j := hij
  have hi : (t.columns.map Column.name)[i]? = some c.name := by simp [hc]
  have hj : (t.columns.map Column.name)[j]? = some c.name := by simp [hd, hname]
  have := (List.nodup_iff_getElem?_ne_getElem?.mp h) i j hlt (List.getElem?_eq_some_iff.mp hj).1
  exact this (hi.trans hj.symm)

theorem distinct_of_shape_eq {t t' : Table} (h : t'.shape = t.shape) (hd : t.Distinct) :
    t'.Distinct := by
  unfold Distinct
  rw [names_of_shape_eq h.symm]
  exact hd

theorem named_of_shape_eq {t t' : Table} (h : t'.shape = t.shape) (name : String) :
    (t'.named name).map Column.withoutRows = (t.named name).map Column.withoutRows := by
  unfold named
  rw [position?_of_shape_eq h]
  cases t.position? name with
  | none => rfl
  | some i =>
    have hi := congrArg (·[i]?) h
    simpa [getElem?_shape] using hi

theorem named_eq_none_of_shape_eq {t t' : Table} (h : t'.shape = t.shape) {name : String}
    (hn : t.named name = none) : t'.named name = none := by
  have hmap := named_of_shape_eq h name
  rw [hn, Option.map_none, Option.map_eq_none_iff] at hmap
  exact hmap

/-! ## References by names -/

/-- A calculated column refers to another, told by their names. -/
def RefersAs (t : Table) (a b : String) : Prop :=
  ∃ c d, t.named a = some c ∧ c.isCalculated = true ∧ b ∈ c.reads ∧
    t.named b = some d ∧ d.isCalculated = true

theorem refersAs_of_refersTo {t : Table} (h : t.Distinct) {i j : Nat}
    (hr : RefersTo t.columns i j) :
    ∃ c d, t.columns[i]? = some c ∧ t.columns[j]? = some d ∧ t.RefersAs c.name d.name := by
  obtain ⟨c, d, name, hc, hcalc, hread, ⟨e, he, hname, -⟩, hd, hdcalc⟩ := hr
  rw [hd, Option.some.injEq] at he
  subst he
  subst hname
  exact ⟨c, d, hc, hd, c, d, (named_of_position (h.position? hc)).trans hc, hcalc, hread,
    (named_of_position (h.position? hd)).trans hd, hdcalc⟩

theorem refersTo_of_refersAs {t : Table} {a b : String} (h : t.RefersAs a b) :
    ∃ i j, t.position? a = some i ∧ t.position? b = some j ∧ RefersTo t.columns i j := by
  obtain ⟨c, d, hc, hcalc, hread, hd, hdcalc⟩ := h
  obtain ⟨i, hi, hc, -⟩ := named_eq_some hc
  obtain ⟨j, hj, hd, -⟩ := named_eq_some hd
  exact ⟨i, j, hi, hj, c, d, b, hc, hcalc, hread, (position?_eq_some_iff t b j).mp hj, hd, hdcalc⟩

/-- A column reaches a cycle if its name does. -/
theorem reachesCycle_iff_named {t : Table} (h : t.Distinct) {name : String} {i : Nat}
    (hi : t.position? name = some i) :
    ReachesCycle (RefersTo t.columns) i ↔ ReachesCycle t.RefersAs name := by
  constructor
  · intro hr
    let nameOf : Nat → String := fun j => (t.columns[j]?.map Column.name).getD ""
    have hmap : ReachesCycle t.RefersAs (nameOf i) := hr.map nameOf fun j k hjk => by
      obtain ⟨c, d, hc, hd, hrefers⟩ := refersAs_of_refersTo h hjk
      simpa [nameOf, hc, hd] using hrefers
    obtain ⟨c, hc, hname, -⟩ := (position?_eq_some_iff t name i).mp hi
    simpa [nameOf, hc, hname] using hmap
  · intro hr
    let positionOf : String → Nat := fun a => (t.position? a).getD 0
    have hmap : ReachesCycle (RefersTo t.columns) (positionOf name) :=
        hr.map positionOf fun a b hab => by
      obtain ⟨j, k, hj, hk, hrefers⟩ := refersTo_of_refersAs hab
      simpa [positionOf, hj, hk] using hrefers
    simpa [positionOf, hi] using hmap

/-! ## Names at positions -/

theorem exists_calculated (t : Table) :
    ∀ i ∈ t.calculatedPositions, ∃ c, t.columns[i]? = some c := by
  intro i hi
  obtain ⟨c, hc, -⟩ := (mem_calculatedPositions t i).mp hi
  exact ⟨c, hc⟩

theorem mem_namesAt {t : Table} (h : t.Distinct) (positions : List Nat) (name : String) :
    name ∈ t.namesAt positions ↔ ∃ i ∈ positions, t.position? name = some i := by
  unfold namesAt
  simp only [List.mem_filterMap, Option.map_eq_some_iff]
  constructor
  · rintro ⟨i, hi, c, hc, rfl⟩
    exact ⟨i, hi, h.position? hc⟩
  · rintro ⟨i, hi, hpos⟩
    obtain ⟨c, hc, hname, -⟩ := (position?_eq_some_iff t name i).mp hpos
    exact ⟨i, hi, c, hc, hname⟩

theorem nodup_namesAt {t : Table} (h : t.Distinct) {positions : List Nat}
    (hnodup : positions.Nodup) : (t.namesAt positions).Nodup := by
  refine hnodup.filterMap fun i j name hi hj => ?_
  obtain ⟨c, hc, rfl⟩ := Option.map_eq_some_iff.mp hi
  obtain ⟨d, hd, hname⟩ := Option.map_eq_some_iff.mp hj
  have hpos := h.position? hd
  rw [hname, h.position? hc, Option.some.injEq] at hpos
  exact hpos

theorem length_namesAt {t : Table} {positions : List Nat}
    (h : ∀ i ∈ positions, ∃ c, t.columns[i]? = some c) :
    (t.namesAt positions).length = positions.length := by
  unfold namesAt
  rw [List.filterMap_length_eq_length]
  intro i hi
  obtain ⟨c, hc⟩ := h i hi
  rw [hc]
  rfl

/-- The failures among the cells of columns, counted by the names of the
columns. -/
theorem countP_failedAt {t u : Table} (h : t.Distinct) (hu : u.shape = t.shape)
    {positions : List Nat} (hcolumns : ∀ i ∈ positions, ∃ c, t.columns[i]? = some c) :
    (t.cellsOf positions).countP u.failedAt =
      ((t.namesAt positions).map fun name =>
        t.rowIndices.countP fun row => ((u.storedAs name row).bind Prod.snd).isSome).sum := by
  induction positions with
  | nil => rfl
  | cons i rest ih =>
    obtain ⟨c, hc⟩ := hcolumns i (by simp)
    have hrest := ih fun j hj => hcolumns j (List.mem_cons_of_mem i hj)
    have hnames : t.namesAt (i :: rest) = c.name :: t.namesAt rest := by simp [namesAt, hc]
    have hcells : t.cellsOf (i :: rest) = t.rowIndices.map (fun r => (i, r)) ++ t.cellsOf rest := by
      simp [cellsOf]
    have hpos := (position?_of_shape_eq hu c.name).trans (h.position? hc)
    rw [hcells, hnames, List.countP_append, List.countP_map, hrest, List.map_cons, List.sum_cons]
    congr 1
    apply List.countP_congr
    intro row _
    rw [storedAs_of_position hpos]
    rfl

end Table

end Worksheet
