-- Summaries of a column that was filled row by row. The column stores the
-- texts of its values, and its summary reads them again. For integers and
-- doubles that is the summary of the values themselves. A truth value counts
-- as a number, but its text does not, and it fails the summary.
import Worksheet.Column.Rows
import Worksheet.Proofs.OrderedMap
import Worksheet.Proofs.Summary.Displayed

namespace Worksheet

/-! ## Filling rows -/

/-- A row to fill, and the value that an expression has there. -/
structure Filling (expression : String) where
  row : Int
  vars : Variables
  evaluator : Evaluator
  value : Value
  evaluates : evaluator.evaluate expression vars = .ok (.value value)

/-- The column after rows were filled one by one. -/
def Column.fill {expression : String} (c : Column) :
    List (Filling expression) → Except Fault Column
  | [] => .ok c
  | f :: rest =>
    match c.evaluateRow f.row f.vars f.evaluator with
    | .error e => .error e
    | .ok (c, _) => c.fill rest

/-- The values that rows are filled with, a row that is filled again in its
old place. -/
def typedRows {expression : String} (fillings : List (Filling expression)) :
    OrderedMap Int Value :=
  OrderedMap.ofList (fillings.map fun f => (f.row, f.value))

/-- The value is a truth value, an integer in the range of doubles, or a
double. -/
def Value.Summable : Value → Prop
  | .bool _ => True
  | .int n => (Double.ofInt n).isFinite = true
  | .double _ => True
  | _ => False

/-! ## What is stored -/

/-- The text of a value that can be summed up. -/
def Stores (stored typed : Value) : Prop :=
  typed.Summable ∧ ∃ text, typed.display = .ok text ∧ stored = .text text

theorem Value.Summable.cases {v : Value} (h : v.Summable) :
    (∃ b, v = .bool b) ∨ ∃ n : Number, v = .ofNumber n ∧ v.rowDouble? = some n.nearest := by
  cases v with
  | bool b => exact Or.inl ⟨b, rfl⟩
  | int n => exact Or.inr ⟨.int n, rfl, if_pos h⟩
  | double x => exact Or.inr ⟨.double x, rfl, rfl⟩
  | _ => exact h.elim

theorem Value.Summable.exists_display {v : Value} (h : v.Summable) :
    ∃ text, v.display = .ok text := by
  rcases h.cases with ⟨b, rfl⟩ | ⟨n, rfl, -⟩
  · exact ⟨_, rfl⟩
  · obtain ⟨text, -, hd, -⟩ := rowDouble?_display_number n
    exact ⟨text, hd⟩

/-- The text of a number counts as the number does. -/
theorem Stores.counts {stored typed : Value} (h : Stores stored typed)
    (hno : ∀ b, typed ≠ .bool b) :
    ∃ x y, stored.rowDouble? = some x ∧ typed.rowDouble? = some y ∧ Double.Alike x y := by
  obtain ⟨hsum, text, hd, rfl⟩ := h
  rcases hsum.cases with ⟨b, rfl⟩ | ⟨n, rfl, hn⟩
  · exact absurd rfl (hno b)
  · obtain ⟨text', y, hd', hy, halike⟩ := rowDouble?_display_number n
    rw [hd, Except.ok.injEq] at hd'
    subst hd'
    exact ⟨y, n.nearest, hy, hn, halike.symm⟩

/-- The text of a truth value counts as none. -/
theorem Stores.counts_none {stored : Value} {b : Bool} (h : Stores stored (.bool b)) :
    stored.rowDouble? = none := by
  obtain ⟨-, text, hd, rfl⟩ := h
  obtain ⟨text', hd', hnone⟩ := rowDouble?_display_bool b
  rw [hd, Except.ok.injEq] at hd'
  subst hd'
  exact hnone

theorem Column.evaluateRow_eq {c : Column} {row : Int} {vars : Variables} {ev : Evaluator}
    {v : Value} {text : String} (heval : ev.evaluate c.expression vars = .ok (.value v))
    (hd : v.display = .ok text) :
    c.evaluateRow row vars ev =
      .ok ({ c with
        rows := c.rows.insert row (.text text)
        failures := c.failures.erase row }, .value v) := by
  have hdisplay : (Outcome.value v).display = .ok text := hd
  unfold evaluateRow record
  simp only [heval, hdisplay, Except.map]

/-- Rows are filled without a fault, and hold the texts of their values in the
order of these. -/
theorem Column.fill_spec {expression : String} {c : Column} (hc : c.expression = expression)
    (fillings : List (Filling expression)) (hsum : ∀ f ∈ fillings, f.value.Summable)
    {typed : OrderedMap Int Value} (hm : OrderedMap.Matches Stores c.rows typed) :
    ∃ c', c.fill fillings = .ok c' ∧ c'.aggregation = c.aggregation ∧
      OrderedMap.Matches Stores c'.rows
        ((fillings.map fun f => (f.row, f.value)).foldl (fun m p => m.insert p.1 p.2) typed) := by
  induction fillings generalizing c typed with
  | nil => exact ⟨c, rfl, rfl, hm⟩
  | cons f rest ih =>
    rw [List.forall_mem_cons] at hsum
    obtain ⟨text, hd⟩ := hsum.1.exists_display
    have heval : f.evaluator.evaluate c.expression f.vars = .ok (.value f.value) := by
      rw [hc]
      exact f.evaluates
    let filled : Column := { c with
      rows := c.rows.insert f.row (.text text)
      failures := c.failures.erase f.row }
    have hrow : c.evaluateRow f.row f.vars f.evaluator = .ok (filled, .value f.value) :=
      Column.evaluateRow_eq heval hd
    have hfilled : OrderedMap.Matches Stores filled.rows (typed.insert f.row f.value) :=
      hm.insert f.row ⟨hsum.1, text, hd, rfl⟩
    have hexpression : filled.expression = expression := hc
    obtain ⟨c', hfill, haggregation, hmatches⟩ := ih hexpression hsum.2 hfilled
    refine ⟨c', ?_, haggregation, hmatches⟩
    rw [Column.fill, hrow]
    exact hfill

/-! ## The law -/

/-- A column that is filled row by row with truth values, integers in the range
of doubles and doubles has the summary of the values themselves, in the same
order, when no truth value is left among them. With one left, every operation
fails. The sign of a zero is lost on the way, so the reductions must not make a
difference by it. -/
theorem stored_rows_summarise [Reductions] (hsteady : Reductions.Steady) (c : Column)
    (fillings : List (Filling c.expression)) (hsum : ∀ f ∈ fillings, f.value.Summable) :
    ∃ c', c.withoutRows.fill fillings = .ok c' ∧ c'.rows.keys = (typedRows fillings).keys ∧
      ((∀ b, .bool b ∉ (typedRows fillings).values) →
        c'.summary = c.aggregation.summarise (typedRows fillings).values) ∧
      ((∃ b, .bool b ∈ (typedRows fillings).values) →
        c'.summary = if c.aggregation = .none then ⟨.none, "", none⟩
          else ⟨c.aggregation, failedText, some .aggregationFailed⟩) := by
  have hexpression : c.withoutRows.expression = c.expression := rfl
  have hempty : OrderedMap.Matches Stores c.withoutRows.rows .empty := .nil
  obtain ⟨c', hfill, haggregation, hmatches⟩ :=
    Column.fill_spec hexpression fillings hsum hempty
  have haggregation : c'.aggregation = c.aggregation := haggregation
  have hmatches : OrderedMap.Matches Stores c'.rows (typedRows fillings) := hmatches
  have hvalues := hmatches.values
  refine ⟨c', hfill, hmatches.keys, fun hno => ?_, fun hbool => ?_⟩
  · unfold Column.summary
    rw [haggregation]
    apply Aggregation.summarise_congr hsteady
    obtain ⟨hlength, hzip⟩ := List.forall₂_iff_zip.mp hvalues
    refine List.forall₂_iff_zip.mpr ⟨hlength, fun {stored typed} hmem => ?_⟩
    refine (hzip hmem).counts fun b hb => hno b ?_
    rw [← hb]
    exact (List.of_mem_zip hmem).2
  · obtain ⟨b, hb⟩ := hbool
    obtain ⟨stored, hmem, hstored⟩ := hmatches.exists_of_mem_values hb
    unfold Column.summary
    rw [haggregation]
    split
    · rename_i hnone
      rw [hnone]
      rfl
    · rename_i hsome
      exact Aggregation.summarise_of_unread hsome ⟨stored, hmem, hstored.counts_none⟩

section

attribute [local instance] Reductions.fromLeft

/-- A column that repeats a number. -/
def repeatedColumn : Column := .ofParts "A" .calculated "A" "#x#" .average

/-- Two rows of it: an integer, and the negative zero. -/
def integerAndZero : List (Filling repeatedColumn.expression) :=
  [⟨0, .ofList [("x", .text "5")], .builtIn, .int 5, by decide +kernel⟩,
    ⟨1, .ofList [("x", .text "-0.0")], .builtIn, .double (.zero true), by decide +kernel⟩]

theorem average_beside_negative_zero :
    Reductions.Steady ∧ (∀ f ∈ integerAndZero, f.value.Summable) ∧
      ∃ c', repeatedColumn.withoutRows.fill integerAndZero = .ok c' ∧
        c'.summary = ⟨.average, "2.5", none⟩ := by
  have hsum : ∀ f ∈ integerAndZero, f.value.Summable := by
    intro f hf
    simp only [integerAndZero, List.mem_cons, List.not_mem_nil, or_false] at hf
    rcases hf with rfl | rfl
    · show (Double.ofInt 5).isFinite = true
      decide +kernel
    · trivial
  have hsteady : Reductions.Steady := Reductions.steady_fromLeft
  obtain ⟨c', hfill, -, hsummary, -⟩ :=
    stored_rows_summarise hsteady repeatedColumn integerAndZero hsum
  have hvalues : (typedRows integerAndZero).values = [.int 5, .double (.zero true)] := by
    decide +kernel
  rw [hvalues] at hsummary
  refine ⟨hsteady, hsum, c', hfill, ?_⟩
  rw [hsummary (by simp)]
  decide +kernel

/-- A column that compares a number. -/
def comparedColumn : Column := .ofParts "A" .calculated "A" "#x# > 1" .sum

/-- A row of it, with a truth value. -/
def truthValue : List (Filling comparedColumn.expression) :=
  [⟨0, .ofList [("x", .int 2)], .builtIn, .bool true, by decide +kernel⟩]

theorem sum_of_truth_value :
    (comparedColumn.withoutRows.fill truthValue).map Column.summary =
        .ok ⟨.sum, "ERROR", some .aggregationFailed⟩ ∧
      comparedColumn.aggregation.summarise (typedRows truthValue).values = ⟨.sum, "1", none⟩ := by
  decide +kernel

end

end Worksheet
