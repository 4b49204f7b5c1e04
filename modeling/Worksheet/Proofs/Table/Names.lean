-- What names stand for, and the graph that they make. A name stands for
-- the last column that has it. A calculated column refers to another when a
-- name in its expression stands for it. Both are a matter of the columns
-- alone, whatever rows they hold.
import Worksheet.Table.Recalculation
import Worksheet.Proofs.OrderedMap
import Worksheet.Proofs.Graph.Order

open Relation

namespace Worksheet

/-! ## The last column of a name -/

/-- The name stands for the column at `i`, the last that has it. -/
def StandsFor (columns : List Column) (name : String) (i : Nat) : Prop :=
  ∃ c, columns[i]? = some c ∧ c.name = name ∧
    ∀ j d, i < j → columns[j]? = some d → d.name ≠ name

/-- The names of columns with their positions, the last of a name winning. -/
def lastPositions (columns : List Column) : OrderedMap String Nat :=
  OrderedMap.ofList (columns.zipIdx.map fun p => (p.1.name, p.2))

/-- A column of a longer list is the last one, or one of the list. -/
theorem getElem?_snoc_cases {columns : List Column} {c : Column} (j : Nat) (d : Column)
    (h : (columns ++ [c])[j]? = some d) :
    (j = columns.length ∧ d = c) ∨ columns[j]? = some d := by
  rcases Nat.lt_or_ge j columns.length with hlt | hge
  · rw [List.getElem?_append_left hlt] at h
    exact Or.inr h
  · have hj : j = columns.length := by
      have := (List.getElem?_eq_some_iff.mp h).1
      simp only [List.length_append, List.length_singleton] at this
      omega
    subst hj
    rw [List.getElem?_concat_length] at h
    exact Or.inl ⟨rfl, (Option.some.inj h).symm⟩

theorem standsFor_snoc (columns : List Column) (c : Column) (name : String) (i : Nat) :
    StandsFor (columns ++ [c]) name i ↔
      if c.name = name then i = columns.length else StandsFor columns name i := by
  have hlast : (columns ++ [c])[columns.length]? = some c := by simp
  have hinit : ∀ (j : Nat) (d : Column), columns[j]? = some d → (columns ++ [c])[j]? = some d := by
    intro j d hj
    rw [List.getElem?_append_left (List.getElem?_eq_some_iff.mp hj).1, hj]
  split
  · rename_i hname
    constructor
    · rintro ⟨d, hd, -, hafter⟩
      rcases getElem?_snoc_cases i d hd with ⟨hi, -⟩ | hi
      · exact hi
      · exact absurd hname
          (hafter _ c (List.getElem?_eq_some_iff.mp hi).1 hlast)
    · rintro rfl
      refine ⟨c, hlast, hname, fun j d hj hd => ?_⟩
      rcases getElem?_snoc_cases j d hd with ⟨rfl, -⟩ | hd'
      · omega
      · have := (List.getElem?_eq_some_iff.mp hd').1
        omega
  · rename_i hname
    constructor
    · rintro ⟨d, hd, hdn, hafter⟩
      rcases getElem?_snoc_cases i d hd with ⟨-, rfl⟩ | hi
      · exact absurd hdn hname
      · exact ⟨d, hi, hdn, fun j e hj he => hafter j e hj (hinit j e he)⟩
    · rintro ⟨d, hd, hdn, hafter⟩
      refine ⟨d, hinit i d hd, hdn, fun j e hj he => ?_⟩
      rcases getElem?_snoc_cases j e he with ⟨-, rfl⟩ | he'
      · exact hname
      · exact hafter j e hj he'

theorem get?_lastPositions (columns : List Column) (name : String) (i : Nat) :
    (lastPositions columns).get? name = some i ↔ StandsFor columns name i := by
  induction columns using List.reverseRecOn with
  | nil => simp [lastPositions, OrderedMap.ofList, StandsFor]
  | append_singleton columns c ih =>
    have hsnoc : lastPositions (columns ++ [c]) =
        (lastPositions columns).insert c.name columns.length := by
      simp [lastPositions, List.zipIdx_append, OrderedMap.ofList_snoc]
    rw [hsnoc, OrderedMap.get?_insert, standsFor_snoc, ← ih]
    split
    · simp [eq_comm]
    · rfl

/-- Columns of the same names stand at the same positions. -/
theorem exists_of_names_eq {columns columns' : List Column}
    (h : columns'.map Column.name = columns.map Column.name) {i : Nat} {c : Column}
    (hc : columns[i]? = some c) : ∃ c', columns'[i]? = some c' ∧ c'.name = c.name := by
  have hi := congrArg (·[i]?) h
  simpa [hc] using hi

/-- What a name stands for is a matter of the names. -/
theorem standsFor_of_names_eq {columns columns' : List Column}
    (h : columns'.map Column.name = columns.map Column.name) {name : String} {i : Nat}
    (hs : StandsFor columns name i) : StandsFor columns' name i := by
  obtain ⟨c, hc, hname, hafter⟩ := hs
  obtain ⟨c', hc', hsame⟩ := exists_of_names_eq h hc
  refine ⟨c', hc', hsame.trans hname, fun j d hj hd => ?_⟩
  obtain ⟨d', hd', hsame'⟩ := exists_of_names_eq h.symm hd
  rw [← hsame']
  exact hafter j d' hj hd'

namespace Column

/-! ## Columns apart from their rows -/

variable {c c' : Column}

theorem name_eq_of_withoutRows (h : c'.withoutRows = c.withoutRows) : c'.name = c.name := by
  have hname : c'.withoutRows.name = c.withoutRows.name := by rw [h]
  exact hname

theorem reads_eq_of_withoutRows (h : c'.withoutRows = c.withoutRows) : c'.reads = c.reads := by
  have hreads : c'.withoutRows.reads = c.withoutRows.reads := by rw [h]
  exact hreads

theorem expression_eq_of_withoutRows (h : c'.withoutRows = c.withoutRows) :
    c'.expression = c.expression := by
  have hexpr : c'.withoutRows.expression = c.withoutRows.expression := by rw [h]
  exact hexpr

theorem isCalculated_eq_of_withoutRows (h : c'.withoutRows = c.withoutRows) :
    c'.isCalculated = c.isCalculated := by
  have hcalc : c'.withoutRows.isCalculated = c.withoutRows.isCalculated := by rw [h]
  exact hcalc

end Column

namespace Table

/-- A name is looked up at the last column that has it. -/
theorem position?_eq_some_iff (t : Table) (name : String) (i : Nat) :
    t.position? name = some i ↔ StandsFor t.columns name i :=
  get?_lastPositions t.columns name i

/-- The columns of a table without the rows that they hold. -/
def shape (t : Table) : List Column := t.columns.map Column.withoutRows

theorem getElem?_shape (t : Table) (i : Nat) :
    t.shape[i]? = t.columns[i]?.map Column.withoutRows := List.getElem?_map

/-- Columns of one shape differ in their rows at most. -/
theorem exists_of_shape_eq {t t' : Table} (h : t.shape = t'.shape) {i : Nat} {c : Column}
    (hc : t.columns[i]? = some c) :
    ∃ c', t'.columns[i]? = some c' ∧ c'.withoutRows = c.withoutRows := by
  have hi := congrArg (·[i]?) h
  simp only [getElem?_shape, hc, Option.map_some] at hi
  rcases hc' : t'.columns[i]? with _ | c'
  · rw [hc'] at hi
    simp at hi
  · rw [hc', Option.map_some, Option.some.injEq] at hi
    exact ⟨c', rfl, hi.symm⟩

theorem names_of_shape_eq {t t' : Table} (h : t.shape = t'.shape) :
    t'.columns.map Column.name = t.columns.map Column.name := by
  have hnames : ∀ u : Table, u.columns.map Column.name = u.shape.map Column.name := by
    intro u
    unfold shape
    rw [List.map_map]
    rfl
  rw [hnames, hnames, h]

theorem standsFor_of_shape_eq {t t' : Table} (h : t.shape = t'.shape) {name : String} {i : Nat}
    (hs : StandsFor t.columns name i) : StandsFor t'.columns name i :=
  standsFor_of_names_eq (names_of_shape_eq h) hs

theorem position?_of_names_eq {t t' : Table}
    (h : t'.columns.map Column.name = t.columns.map Column.name) (name : String) :
    t'.position? name = t.position? name := by
  apply Option.ext
  intro i
  rw [position?_eq_some_iff, position?_eq_some_iff]
  exact ⟨standsFor_of_names_eq h.symm, standsFor_of_names_eq h⟩

theorem position?_of_shape_eq {t t' : Table} (h : t.shape = t'.shape) (name : String) :
    t.position? name = t'.position? name :=
  position?_of_names_eq (names_of_shape_eq h.symm) name

end Table

/-! ## References among calculated columns -/

/-- The calculated column at `i` has a name in its expression that stands
for the calculated column at `j`. -/
def RefersTo (columns : List Column) (i j : Nat) : Prop :=
  ∃ c d name, columns[i]? = some c ∧ c.isCalculated = true ∧ name ∈ c.reads ∧
    StandsFor columns name j ∧ columns[j]? = some d ∧ d.isCalculated = true

namespace Table

theorem refersTo_of_shape_eq {t t' : Table} (h : t.shape = t'.shape) :
    RefersTo t.columns = RefersTo t'.columns := by
  have himp : ∀ {t t' : Table}, t.shape = t'.shape → ∀ i j,
      RefersTo t.columns i j → RefersTo t'.columns i j := by
    rintro t t' h i j ⟨c, d, name, hc, hcalc, hread, hs, hd, hdcalc⟩
    obtain ⟨c', hc', hsame⟩ := exists_of_shape_eq h hc
    obtain ⟨d', hd', hsame'⟩ := exists_of_shape_eq h hd
    refine ⟨c', d', name, hc', ?_, ?_, standsFor_of_shape_eq h hs, hd', ?_⟩
    · rw [Column.isCalculated_eq_of_withoutRows hsame]
      exact hcalc
    · rw [Column.reads_eq_of_withoutRows hsame]
      exact hread
    · rw [Column.isCalculated_eq_of_withoutRows hsame']
      exact hdcalc
  funext i j
  exact propext ⟨himp h i j, himp h.symm i j⟩

theorem mem_calculatedPositions (t : Table) (i : Nat) :
    i ∈ t.calculatedPositions ↔ ∃ c, t.columns[i]? = some c ∧ c.isCalculated = true := by
  unfold calculatedPositions
  simp only [List.mem_map, List.mem_filter, Prod.exists, List.mem_zipIdx_iff_getElem?]
  constructor
  · rintro ⟨c, j, ⟨hc, hcalc⟩, rfl⟩
    exact ⟨c, hc, hcalc⟩
  · rintro ⟨c, hc, hcalc⟩
    exact ⟨c, i, ⟨hc, hcalc⟩, rfl⟩

/-- Tables of one shape have their calculated columns in the same places. -/
theorem mem_calculatedPositions_of_shape_eq {t t' : Table} (h : t'.shape = t.shape) {i : Nat}
    {c : Column} (hc : t'.columns[i]? = some c) (hcalc : c.isCalculated = true) :
    i ∈ t.calculatedPositions := by
  obtain ⟨d, hd, hsame⟩ := exists_of_shape_eq h hc
  refine (mem_calculatedPositions t i).mpr ⟨d, hd, ?_⟩
  rw [Column.isCalculated_eq_of_withoutRows hsame, hcalc]

theorem calculatedPositions_nodup (t : Table) : t.calculatedPositions.Nodup := by
  have hall : (t.columns.zipIdx.map Prod.snd).Nodup := by
    rw [List.zipIdx_map_snd]
    exact List.nodup_range'
  exact hall.sublist (List.filter_sublist.map _)

/-- The registrations that make the graph: the calculated columns with the
positions that they read. -/
def registrations (t : Table) : List (Nat × List Nat) :=
  t.calculatedPositions.filterMap fun i =>
    t.columns[i]?.map fun c => (i, c.reads.filterMap t.position?)

theorem graph_eq (t : Table) : t.graph = ReferenceGraph.ofRegistrations t.registrations := by
  unfold graph ReferenceGraph.ofRegistrations registrations
  generalize t.calculatedPositions = l
  generalize (ReferenceGraph.empty : ReferenceGraph Nat) = g
  induction l generalizing g with
  | nil => rfl
  | cons i rest ih =>
    rw [List.foldl_cons, List.filterMap_cons]
    cases t.columns[i]? with
    | none => exact ih g
    | some c => exact ih _

theorem mem_registrations (t : Table) (i : Nat) (ds : List Nat) :
    (i, ds) ∈ t.registrations ↔ ∃ c, t.columns[i]? = some c ∧ c.isCalculated = true ∧
      ds = c.reads.filterMap t.position? := by
  unfold registrations
  simp only [List.mem_filterMap, Option.map_eq_some_iff, Prod.mk.injEq]
  constructor
  · rintro ⟨j, hj, c, hc, rfl, rfl⟩
    obtain ⟨c', hc', hcalc⟩ := (mem_calculatedPositions t j).mp hj
    rw [hc, Option.some.injEq] at hc'
    exact ⟨c, hc, hc' ▸ hcalc, rfl⟩
  · rintro ⟨c, hc, hcalc, rfl⟩
    exact ⟨i, (mem_calculatedPositions t i).mpr ⟨c, hc, hcalc⟩, c, hc, rfl, rfl⟩

theorem map_fst_registrations (t : Table) :
    t.registrations.map Prod.fst = t.calculatedPositions := by
  unfold registrations
  rw [List.map_filterMap]
  conv_rhs => rw [← List.filterMap_some (l := t.calculatedPositions)]
  apply List.filterMap_congr
  intro i hi
  obtain ⟨c, hc, -⟩ := (mem_calculatedPositions t i).mp hi
  simp [hc]

theorem registrations_nodup (t : Table) : (t.registrations.map Prod.fst).Nodup := by
  rw [map_fst_registrations]
  exact t.calculatedPositions_nodup

theorem graph_consistent (t : Table) : ReferenceGraph.Consistent t.graph := by
  rw [graph_eq]
  exact (ReferenceGraph.ofRegistrations_spec _ t.registrations_nodup).1

theorem graph_nodes (t : Table) : t.graph.nodes = t.calculatedPositions := by
  rw [graph_eq, (ReferenceGraph.ofRegistrations_spec _ t.registrations_nodup).2.1,
    map_fst_registrations]

/-- The edges of the graph are the references among calculated columns. -/
theorem graph_readsNode (t : Table) : t.graph.ReadsNode = RefersTo t.columns := by
  rw [graph_eq, ReferenceGraph.readsNode_ofRegistrations _ t.registrations_nodup]
  funext i j
  unfold ReferenceGraph.Reads RefersTo
  rw [map_fst_registrations, mem_calculatedPositions]
  simp only [mem_registrations, eq_iff_iff]
  constructor
  · rintro ⟨⟨_, ⟨c, hc, hcalc, rfl⟩, hj⟩, d, hd, hdcalc⟩
    obtain ⟨name, hread, hpos⟩ := List.mem_filterMap.mp hj
    exact ⟨c, d, name, hc, hcalc, hread, (position?_eq_some_iff t name j).mp hpos, hd, hdcalc⟩
  · rintro ⟨c, d, name, hc, hcalc, hread, hs, hd, hdcalc⟩
    refine ⟨⟨_, ⟨c, hc, hcalc, rfl⟩, ?_⟩, d, hd, hdcalc⟩
    exact List.mem_filterMap.mpr ⟨name, hread, (position?_eq_some_iff t name j).mpr hs⟩

end Table

end Worksheet
