-- Doubles that are the same number. Equal doubles are, and the two zeros.
-- Addition, division and order do not tell such doubles apart, and neither
-- does a cell. Where the reductions do not, a summary does not.
import Worksheet.Aggregation
import Worksheet.Proofs.Double.Rounding
import Mathlib.Data.List.Forall2

namespace Worksheet

namespace Double

/-! ## The same number -/

/-- Two doubles are equal, or zeros of any sign. -/
def Alike (x y : Double) : Prop := x = y ∨ x.isZero = true ∧ y.isZero = true

theorem exists_zero {x : Double} (h : x.isZero = true) : ∃ s, x = zero s := by
  cases x with
  | nan => cases h
  | infinity s => cases h
  | finite s m e hc =>
    obtain rfl : m = 0 := by simpa [isZero] using h
    -- only the least exponent has a zero
    obtain rfl : e = -1074 := hc.2.2.2.resolve_left (by omega)
    exact ⟨s, rfl⟩

theorem magnitude_zero (e : Int) : magnitude 0 e = 0 := by simp [magnitude]

theorem value_zero (s : Bool) : (zero s).value = 0 := by
  unfold zero value
  dsimp only
  rw [magnitude_zero, neg_zero, ite_self]

namespace Alike

variable {x x' y y' : Double}

theorem refl (x : Double) : Alike x x := Or.inl rfl

theorem zeros (s t : Bool) : Alike (zero s) (zero t) := Or.inr ⟨rfl, rfl⟩

theorem symm (h : Alike x y) : Alike y x := h.imp Eq.symm And.symm

theorem trans {z : Double} (h : Alike x y) (h' : Alike y z) : Alike x z := by
  rcases h with rfl | ⟨hx, hy⟩
  · exact h'
  · rcases h' with rfl | ⟨-, hz⟩
    · exact Or.inr ⟨hx, hy⟩
    · exact Or.inr ⟨hx, hz⟩

theorem cases (h : Alike x y) : x = y ∨ ∃ s t, x = zero s ∧ y = zero t := by
  rcases h with he | ⟨hx, hy⟩
  · exact Or.inl he
  · obtain ⟨s, rfl⟩ := exists_zero hx
    obtain ⟨t, rfl⟩ := exists_zero hy
    exact Or.inr ⟨s, t, rfl, rfl⟩

/-! ## Arithmetic -/

/-- A zero of any sign leaves a sum what it is, up to the sign of a zero. -/
theorem zeros_add (s t : Bool) (y : Double) : Alike ((zero s).add y) ((zero t).add y) := by
  cases y with
  | nan => exact refl _
  | infinity u => exact refl _
  | finite u n f k =>
    have hadd : ∀ s, (zero s).add (.finite u n f k) =
        if (zero s).value + (finite u n f k).value = 0 then zero (s && u)
        else ofRat ((zero s).value + (finite u n f k).value) := fun s => rfl
    rw [hadd, hadd, value_zero, value_zero]
    split
    · exact zeros _ _
    · exact refl _

theorem add_zeros (s t : Bool) (x : Double) : Alike (x.add (zero s)) (x.add (zero t)) := by
  cases x with
  | nan => exact refl _
  | infinity u => exact refl _
  | finite u n f k =>
    have hadd : ∀ s, (finite u n f k).add (zero s) =
        if (finite u n f k).value + (zero s).value = 0 then zero (u && s)
        else ofRat ((finite u n f k).value + (zero s).value) := fun s => rfl
    rw [hadd, hadd, value_zero, value_zero]
    split
    · exact zeros _ _
    · exact refl _

theorem add (hx : Alike x x') (hy : Alike y y') : Alike (x.add y) (x'.add y') := by
  have hleft : Alike (x.add y) (x'.add y) := by
    rcases hx.cases with rfl | ⟨s, t, rfl, rfl⟩
    · exact refl _
    · exact zeros_add s t y
  have hright : Alike (x'.add y) (x'.add y') := by
    rcases hy.cases with rfl | ⟨s, t, rfl, rfl⟩
    · exact refl _
    · exact add_zeros s t x'
  exact hleft.trans hright

/-- A zero over any number is a zero, or not a number over a zero. -/
theorem div (hx : Alike x x') (y : Double) : Alike (x.div y) (x'.div y) := by
  rcases hx.cases with rfl | ⟨s, t, rfl, rfl⟩
  · exact refl _
  · cases y with
    | nan => exact refl _
    | infinity u => exact zeros _ _
    | finite u n f k =>
      have hdiv : ∀ s, (zero s).div (.finite u n f k) =
          if n = 0 then .nan
          else ofMagnitude (s != u) (magnitude 0 (-1074) / magnitude n f) := fun s => rfl
      rw [hdiv, hdiv, magnitude_zero, zero_div]
      split
      · exact refl _
      · exact zeros _ _

/-! ## Kinds, order and text -/

theorem isNaN (h : Alike x y) : x.isNaN = y.isNaN := by
  rcases h.cases with rfl | ⟨s, t, rfl, rfl⟩
  · rfl
  · rfl

theorem lt (hx : Alike x x') (hy : Alike y y') : x.lt y = x'.lt y' := by
  have hplace : ∀ {x y : Double}, Alike x y → x.place? = y.place? := by
    intro x y h
    rcases h.cases with rfl | ⟨s, t, rfl, rfl⟩
    · rfl
    · have hzero : ∀ s, (zero s).place? = some (0, 0) := by
        intro s
        rw [← value_zero s]
        rfl
      rw [hzero, hzero]
  unfold Double.lt compare?
  rw [hplace hx, hplace hy]

theorem cellText (h : Alike x y) : x.cellText = y.cellText := by
  rcases h.cases with rfl | ⟨s, t, rfl, rfl⟩
  · rfl
  · have hzero : ∀ s, (zero s).cellText = "0" := by decide +kernel
    rw [hzero, hzero]

end Alike

end Double

/-! ## Reductions -/

open Double List

/-- The reductions do not tell alike doubles apart: of lists of such doubles
they make alike doubles. -/
structure Reductions.Steady [Reductions] : Prop where
  sum : ∀ {xs ys : List Double}, Forall₂ Alike xs ys →
    Alike (Reductions.sum xs) (Reductions.sum ys)
  max : ∀ {xs ys : List Double}, Forall₂ Alike xs ys →
    Alike (Reductions.max xs) (Reductions.max ys)
  min : ∀ {xs ys : List Double}, Forall₂ Alike xs ys →
    Alike (Reductions.min xs) (Reductions.min ys)

variable {xs ys : List Double}

theorem isEmpty_eq_of_forall₂ (h : Forall₂ Alike xs ys) : xs.isEmpty = ys.isEmpty := by
  cases h with
  | nil => rfl
  | cons _ _ => rfl

/-! ## Reductions from the left -/

/-- The sum from the left; that of nothing is zero. -/
def sumLeft (xs : List Double) : Double :=
  if xs.isEmpty then .zero false else xs.foldl Double.add (.zero true)

/-- The first double that no other comes before; what is not a number wins
over all. -/
def extremeLeft (before : Double → Double → Bool) : List Double → Double
  | [] => .nan
  | x :: xs =>
    if (x :: xs).any Double.isNaN then .nan
    else xs.foldl (fun best y => if before y best then y else best) x

/-- The reductions of a few doubles, taken one by one from the left. -/
@[reducible]
def Reductions.fromLeft : Reductions where
  sum := sumLeft
  max := extremeLeft fun y best => best.lt y
  min := extremeLeft Double.lt

theorem alike_sumLeft (h : Forall₂ Alike xs ys) : Alike (sumLeft xs) (sumLeft ys) := by
  unfold sumLeft
  rw [isEmpty_eq_of_forall₂ h]
  split
  · exact .refl _
  · exact rel_foldl (fun _ _ hs _ _ hx => hs.add hx) (.refl _) h

theorem any_isNaN_of_forall₂ (h : Forall₂ Alike xs ys) :
    xs.any Double.isNaN = ys.any Double.isNaN := by
  induction h with
  | nil => rfl
  | cons hxy _ ih => rw [any_cons, any_cons, hxy.isNaN, ih]

/-- An extreme by an order that does not tell alike doubles apart. -/
theorem alike_extremeLeft {before : Double → Double → Bool}
    (hbefore : ∀ {x x' y y'}, Alike x x' → Alike y y' → before x y = before x' y')
    (h : Forall₂ Alike xs ys) : Alike (extremeLeft before xs) (extremeLeft before ys) := by
  have hnan := any_isNaN_of_forall₂ h
  cases h with
  | nil => exact .refl _
  | cons hxy hrest =>
    unfold extremeLeft
    dsimp only
    rw [hnan]
    split
    · exact .refl _
    · refine rel_foldl (fun best best' hbest y y' hy => ?_) hxy hrest
      rw [hbefore hy hbest]
      split
      · exact hy
      · exact hbest

theorem Reductions.steady_fromLeft : @Reductions.Steady .fromLeft :=
  @Reductions.Steady.mk .fromLeft alike_sumLeft (alike_extremeLeft fun hx hy => hy.lt hx)
    (alike_extremeLeft fun hx hy => hx.lt hy)

/-! ## Summaries -/

section

variable [Reductions] (hsteady : Reductions.Steady)

include hsteady

/-- No operation tells rows of alike doubles apart. -/
theorem Aggregation.alike_reduce (a : Aggregation) (h : Forall₂ Alike xs ys) :
    Alike (a.reduce xs) (a.reduce ys) := by
  unfold Aggregation.reduce
  rw [isEmpty_eq_of_forall₂ h, h.length_eq]
  cases a with
  | none => exact .refl _
  | sum => exact hsteady.sum h
  | average =>
    dsimp only
    split
    · exact .refl _
    · exact (hsteady.sum h).div _
  | max =>
    dsimp only
    split
    · exact .refl _
    · exact hsteady.max h
  | min =>
    dsimp only
    split
    · exact .refl _
    · exact hsteady.min h

/-- Rows that count as alike doubles have the same summary. -/
theorem Aggregation.summarise_congr (a : Aggregation) {rows rows' : List Value}
    (h : Forall₂ (fun v w => ∃ x y, v.rowDouble? = some x ∧ w.rowDouble? = some y ∧ Alike x y)
      rows rows') : a.summarise rows = a.summarise rows' := by
  have hread : ∃ xs ys, rows.mapM Value.rowDouble? = some xs ∧
      rows'.mapM Value.rowDouble? = some ys ∧ Forall₂ Alike xs ys := by
    induction h with
    | nil => exact ⟨[], [], rfl, rfl, .nil⟩
    | cons hvw _ ih =>
      obtain ⟨x, y, hx, hy, hxy⟩ := hvw
      obtain ⟨xs, ys, hxs, hys, hall⟩ := ih
      refine ⟨x :: xs, y :: ys, ?_, ?_, .cons hxy hall⟩
      · simp [mapM_cons, hx, hxs]
      · simp [mapM_cons, hy, hys]
  obtain ⟨xs, ys, hxs, hys, hall⟩ := hread
  unfold summarise
  split
  · rfl
  · rw [hxs, hys]
    dsimp only
    rw [(a.alike_reduce hsteady hall).cellText]

end

end Worksheet
