-- Lower case. A capital Latin letter has a small one, and every other character
-- stays as it is. So lower case keeps what is a blank, a digit or a mark, and it
-- forgets no more of a text than upper case does.
import Worksheet.Proofs.Text.Character
import Worksheet.Proofs.Text.Trim

namespace Worksheet.Text

/-! ## Characters -/

/-- The letters that lower case changes. -/
def capitals : List Char := "ABCDEFGHIJKLMNOPQRSTUVWXYZ".toList

theorem toLower_cases (c : Char) : c.toLower = c ∨ c ∈ capitals := by
  by_cases h : c.val ≥ 'A'.val ∧ c.val ≤ 'Z'.val
  · right
    have hall : ∀ k < 26, Char.ofNat (65 + k) ∈ capitals := by decide
    have hlo : 65 ≤ c.toNat := h.1
    have hhi : c.toNat ≤ 90 := h.2
    have hc := hall (c.toNat - 65) (by omega)
    rwa [Nat.add_sub_of_le hlo, Char.ofNat_toNat] at hc
  · left
    unfold Char.toLower
    rw [dif_neg h]

/-- What the capitals and their small letters share, lower case keeps. -/
theorem apply_toLower {α : Type} {p : Char → α} (h : ∀ x ∈ capitals, p x.toLower = p x)
    (c : Char) : p c.toLower = p c := by
  rcases toLower_cases c with hc | hc
  · rw [hc]
  · exact h c hc

@[simp] theorem isBlank_toLower (c : Char) : isBlank c.toLower = isBlank c :=
  apply_toLower (by decide) c

@[simp] theorem looksLikeDigit_toLower (c : Char) : looksLikeDigit c.toLower = looksLikeDigit c :=
  apply_toLower (by decide) c

@[simp] theorem isDecimalDigit_toLower (c : Char) : isDecimalDigit c.toLower = isDecimalDigit c :=
  apply_toLower (by decide) c

@[simp] theorem isDigit_toLower (c : Char) : c.toLower.isDigit = c.isDigit :=
  apply_toLower (p := Char.isDigit) (by decide) c

@[simp] theorem toLower_toLower (c : Char) : c.toLower.toLower = c.toLower :=
  apply_toLower (by decide) c

@[simp] theorem upperChar_toLower (c : Char) : upperChar c.toLower = upperChar c :=
  apply_toLower (by decide) c

theorem toLower_toUpper (c : Char) : c.toUpper.toLower = c.toLower := by
  by_cases h : c.val ≥ 'a'.val ∧ c.val ≤ 'z'.val
  · have hall : ∀ k < 26,
        (Char.ofNat (97 + k)).toUpper.toLower = (Char.ofNat (97 + k)).toLower := by
      decide
    have hlo : 97 ≤ c.toNat := h.1
    have hhi : c.toNat ≤ 122 := h.2
    have hc := hall (c.toNat - 97) (by omega)
    rwa [Nat.add_sub_of_le hlo, Char.ofNat_toNat] at hc
  · have hself : c.toUpper = c := by
      unfold Char.toUpper
      rw [dif_neg h]
    rw [hself]

/-- No letter: a character that neither case changes. -/
def IsMark (x : Char) : Prop := x.toLower = x ∧ x.toUpper = x

instance (x : Char) : Decidable (IsMark x) := inferInstanceAs (Decidable (_ ∧ _))

/-- A mark is the lower case of itself alone. -/
theorem toLower_eq_iff {c x : Char} (hx : IsMark x) : c.toLower = x ↔ c = x := by
  rcases toLower_cases c with hc | hc
  · rw [hc]
  · have hletter : ∀ d ∈ capitals, d.toLower ≠ d ∧ d.toLower.toUpper ≠ d.toLower := by decide
    constructor
    · rintro rfl
      exact absurd hx.2 (hletter c hc).2
    · rintro rfl
      exact absurd hx.1 (hletter c hc).1

theorem toLower_of_isDecimalDigit {c : Char} (h : isDecimalDigit c = true) : c.toLower = c := by
  rcases toLower_cases c with hc | hc
  · exact hc
  · have hall : ∀ x ∈ capitals, isDecimalDigit x = false := by decide
    rw [hall c hc] at h
    cases h

theorem asciiDigit_toLower (c : Char) : asciiDigit c.toLower = (asciiDigit c).toLower := by
  cases hdec : isDecimalDigit c with
  | true =>
    have hdigit := isDecimalDigit_of_isDigit (isDigit_asciiDigit hdec)
    rw [toLower_of_isDecimalDigit hdec, toLower_of_isDecimalDigit hdigit]
  | false =>
    rw [asciiDigit_of_not_decimal hdec, asciiDigit_of_not_decimal (by simpa using hdec)]

/-! ## Texts -/

/-- The text in lower case. -/
def lower (cs : List Char) : List Char := cs.map Char.toLower

@[simp] theorem lower_nil : lower [] = [] := rfl

@[simp] theorem lower_cons (c : Char) (cs : List Char) : lower (c :: cs) = c.toLower :: lower cs :=
  rfl

@[simp] theorem lower_append (u v : List Char) : lower (u ++ v) = lower u ++ lower v :=
  List.map_append

@[simp] theorem lower_reverse (cs : List Char) : lower cs.reverse = (lower cs).reverse :=
  List.map_reverse

@[simp] theorem length_lower (cs : List Char) : (lower cs).length = cs.length := List.length_map _

theorem dropWhile_lower {p : Char → Bool} (hp : ∀ c, p c.toLower = p c) (cs : List Char) :
    (lower cs).dropWhile p = lower (cs.dropWhile p) := by
  have hcomp : p ∘ Char.toLower = p := funext hp
  unfold lower
  rw [List.dropWhile_map, hcomp]

theorem takeWhile_lower {p : Char → Bool} (hp : ∀ c, p c.toLower = p c) (cs : List Char) :
    (lower cs).takeWhile p = lower (cs.takeWhile p) := by
  have hcomp : p ∘ Char.toLower = p := funext hp
  unfold lower
  rw [List.takeWhile_map, hcomp]

theorem all_lower {p : Char → Bool} (hp : ∀ c, p c.toLower = p c) (cs : List Char) :
    (lower cs).all p = cs.all p := by
  have hcomp : p ∘ Char.toLower = p := funext hp
  unfold lower
  rw [List.all_map, hcomp]

@[simp] theorem trim_lower (cs : List Char) : trim (lower cs) = lower (trim cs) := by
  unfold trim trimEnd trimStart
  rw [dropWhile_lower isBlank_toLower, ← lower_reverse, dropWhile_lower isBlank_toLower,
    lower_reverse]

/-- Digits have no case. -/
theorem lower_of_digits {ds : List Char} (h : ∀ c ∈ ds, c.isDigit = true) : lower ds = ds := by
  have hself : ∀ c ∈ ds, c.toLower = id c :=
    fun c hc => toLower_of_isDecimalDigit (isDecimalDigit_of_isDigit (h c hc))
  unfold lower
  rw [List.map_congr_left hself, List.map_id]

/-! ## Strings -/

theorem toList_toLower (s : String) : s.toLower.toList = lower s.toList := String.toList_map

theorem toLower_ofList (cs : List Char) :
    (String.ofList cs).toLower = String.ofList (lower cs) := by
  rw [← String.toList_inj, toList_toLower, String.toList_ofList, String.toList_ofList]

theorem toLower_of_toUpper (s : String) : s.toUpper.toLower = s.toLower := by
  unfold String.toUpper String.toLower
  rw [← String.toList_inj, String.toList_map, String.toList_map, String.toList_map, List.map_map]
  exact List.map_congr_left fun c _ => toLower_toUpper c

@[simp] theorem upper_toLower (s : String) : upper s.toLower = upper s := by
  have hcomp : (fun c : Char => upperChar c.toLower) = upperChar := funext upperChar_toLower
  unfold upper
  rw [toList_toLower]
  unfold lower
  rw [List.flatMap_map, hcomp]

end Worksheet.Text
