-- Calls and their arguments, taken apart and put together. Between the
-- brackets of a call stands a balanced text. A balanced text is cut at its
-- outer commas into balanced pieces without outer commas, and there is no other
-- list of such pieces that makes up the text.
import Worksheet.Proofs.Expression.Call

namespace Worksheet.Expression

open Text (trim AllBlank)

/-! ## Argument texts -/

/-- What can stand between two commas of a call. -/
structure IsArgument (cs : List Char) : Prop where
  balanced : Balanced cs
  noOuterComma : NoOuterComma cs

/-- Argument texts with commas between them. -/
def joined (pieces : List (List Char)) : List Char := [','].intercalate pieces

theorem isEmptyOrBlank_eq_false {cs : List Char} (h : ¬ AllBlank cs) :
    Text.isEmptyOrBlank cs = false := by
  rw [Bool.eq_false_iff]
  intro hall
  exact h (List.all_eq_true.mp hall)

theorem arguments_of_written {args : List Char} (h : ¬ AllBlank args) :
    arguments args = cutArguments 0 args := by
  unfold arguments
  rw [isEmptyOrBlank_eq_false h]
  rfl

/-! ## Texts that are cut at commas -/

/-- The first piece closes the brackets that are open, and the others stand
outside them. -/
theorem cutArguments_of_closes {d : Int} {cs : List Char} (hd : 0 ≤ d) (h : Closes d cs) :
    ∃ first rest, cutArguments d cs = first :: rest ∧ Closes d first ∧
      (∀ before, Outside (fun _ c => c ≠ ',') d before first) ∧ ∀ p ∈ rest, IsArgument p := by
  induction cs generalizing d with
  | nil => exact ⟨[], [], rfl, h, fun _ => trivial, by simp⟩
  | cons c cs ih =>
    obtain ⟨hnext, htail⟩ := h.tail
    obtain ⟨first, rest, hcut, hcloses, houter, hrest⟩ := ih hnext htail
    by_cases hcomma : d = 0 ∧ c = ','
    · obtain ⟨rfl, rfl⟩ := hcomma
      have hfirst : IsArgument first := ⟨(closes_zero_iff first).mp hcloses, houter⟩
      refine ⟨[], first :: rest, ?_, ⟨rfl, trivial⟩, fun _ => trivial, ?_⟩
      · rw [cutArguments_comma]
        exact congrArg _ hcut
      · rw [List.forall_mem_cons]
        exact ⟨hfirst, hrest⟩
    · have hinner : d = 0 → c ≠ ',' := fun hd hc => hcomma ⟨hd, hc⟩
      refine ⟨c :: first, rest, ?_, hcloses.cons hnext, fun before => ⟨hinner, houter _⟩, hrest⟩
      rw [cutArguments_cons cs hinner, hcut]
      rfl

/-- A balanced text is cut into argument texts. -/
theorem isArgument_of_mem_cutArguments {args : List Char} (h : Balanced args) :
    ∀ p ∈ cutArguments 0 args, IsArgument p := by
  obtain ⟨first, rest, hcut, hcloses, houter, hrest⟩ :=
    cutArguments_of_closes (by simp) ((closes_zero_iff args).mpr h)
  rw [hcut, List.forall_mem_cons]
  exact ⟨⟨(closes_zero_iff first).mp hcloses, houter⟩, hrest⟩

/-- Argument texts are what their joined text is cut into. -/
theorem arguments_joined {pieces : List (List Char)} (h : ∀ p ∈ pieces, IsArgument p)
    (hwritten : ¬ AllBlank (joined pieces)) : arguments (joined pieces) = pieces := by
  have hne : pieces ≠ [] := by
    rintro rfl
    exact hwritten (by simp [joined, Text.allBlank_nil])
  rw [arguments_of_written hwritten]
  exact cutArguments_intercalate hne (fun p hp => (h p hp).balanced)
    fun p hp => (h p hp).noOuterComma

/-- The arguments of a balanced text are the one list of argument texts that
makes it up. -/
theorem arguments_eq_iff {args : List Char} {pieces : List (List Char)} (h : Balanced args)
    (hwritten : ¬ AllBlank args) :
    arguments args = pieces ↔ (∀ p ∈ pieces, IsArgument p) ∧ joined pieces = args := by
  constructor
  · rintro rfl
    rw [arguments_of_written hwritten]
    exact ⟨isArgument_of_mem_cutArguments h, intercalate_cutArguments 0 args⟩
  · rintro ⟨hpieces, rfl⟩
    exact arguments_joined hpieces hwritten

theorem balanced_joined {pieces : List (List Char)} (h : ∀ p ∈ pieces, IsArgument p) :
    Balanced (joined pieces) := balanced_intercalate fun p hp => (h p hp).balanced

/-! ## Calls -/

/-- A name and a group have no blanks around them. -/
theorem trim_call {name : List Char} (args : List Char) (h : IsName name) :
    trim (name ++ '(' :: (args ++ [')'])) = name ++ '(' :: (args ++ [')']) := by
  apply Text.trim_of_bare
  · have hparts := h.isNamePart
    obtain ⟨c, rest, rfl, -, -⟩ := h
    exact Text.startsBare_cons _ (isBlank_of_isNamePart (hparts c (by simp)))
  · have hshape : name ++ '(' :: (args ++ [')']) = name ++ '(' :: args ++ [')'] := by simp
    rw [hshape]
    exact Text.endsBare_concat _ (by decide)

/-- A name, and a balanced text in brackets right behind it, are a call. -/
theorem call?_of_name {name args : List Char} (hname : IsName name) (hargs : Balanced args) :
    call? (name ++ '(' :: (args ++ [')'])) = some (name, args) := by
  unfold call?
  rw [trim_call args hname, callOf?_eq_some_iff]
  exact ⟨hname, hargs, [], Text.allBlank_nil, by rw [List.append_nil]⟩

/-- Nothing of a call is lost when it is taken apart. A text is a call if and
only if it is, between blanks, a name, blanks, and a balanced text in brackets;
the arguments of a balanced text are the one list of argument texts that makes
it up; and a name and argument texts that are put together are found again. -/
theorem calls_and_arguments :
    (∀ cs name args, call? cs = some (name, args) ↔
      IsName name ∧ Balanced args ∧
        ∃ sp, AllBlank sp ∧ trim cs = name ++ sp ++ '(' :: (args ++ [')'])) ∧
    (∀ args, Balanced args → ¬ AllBlank args → ∀ pieces,
      arguments args = pieces ↔ (∀ p ∈ pieces, IsArgument p) ∧ joined pieces = args) ∧
    (∀ name pieces, IsName name → (∀ p ∈ pieces, IsArgument p) → ¬ AllBlank (joined pieces) →
      call? (name ++ '(' :: (joined pieces ++ [')'])) = some (name, joined pieces) ∧
        arguments (joined pieces) = pieces) := by
  refine ⟨fun cs name args => callOf?_eq_some_iff, fun args hargs hwritten pieces => ?_,
    fun name pieces hname hpieces hwritten => ⟨?_, ?_⟩⟩
  · exact arguments_eq_iff hargs hwritten
  · exact call?_of_name hname (balanced_joined hpieces)
  · exact arguments_joined hpieces hwritten

/-- A call with an empty argument in front, and a call and blanks in the others. -/
theorem call_with_empty_argument :
    IsName "ROUND".toList ∧
      (∀ p ∈ [[], "MIN(1, 2)".toList, " 3 ".toList], IsArgument p) ∧
      ¬ AllBlank (joined [[], "MIN(1, 2)".toList, " 3 ".toList]) ∧
      call? "ROUND(,MIN(1, 2), 3 )".toList = some ("ROUND".toList, ",MIN(1, 2), 3 ".toList) ∧
      arguments ",MIN(1, 2), 3 ".toList = [[], "MIN(1, 2)".toList, " 3 ".toList] := by
  have hname : IsName "ROUND".toList := ⟨'R', "OUND".toList, rfl, by decide, by decide⟩
  have hpieces : ∀ p ∈ [[], "MIN(1, 2)".toList, " 3 ".toList], IsArgument p := by
    simp only [List.forall_mem_cons]
    refine ⟨⟨by decide, fun _ => trivial⟩, ⟨by decide, fun before => ?_⟩,
      ⟨by decide, fun before => ?_⟩, by simp⟩
    · simp [Outside, weight]
    · simp [Outside, weight]
  have hwritten : ¬ AllBlank (joined [[], "MIN(1, 2)".toList, " 3 ".toList]) := by
    intro h
    exact absurd (h ',' (by decide)) (by decide)
  obtain ⟨hcall, hargs⟩ := calls_and_arguments.2.2 _ _ hname hpieces hwritten
  exact ⟨hname, hpieces, hwritten, hcall, hargs⟩

end Worksheet.Expression
