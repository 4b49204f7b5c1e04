-- What substitution makes of a text, piece by piece. Characters that are no
-- markers stay, a name between markers becomes the text that stands for it,
-- and neither depends on what follows.
import Worksheet.Evaluator

namespace Worksheet

/-! ## Pieces -/

/-- A name that can stand between markers. -/
def ReferenceName (name : List Char) : Prop := ∀ c ∈ name, c ≠ '#' ∧ c ≠ '\n'

instance (name : List Char) : Decidable (ReferenceName name) :=
  inferInstanceAs (Decidable (∀ c ∈ name, c ≠ '#' ∧ c ≠ '\n'))

namespace Piece

theorem takeName?_append {name : List Char} (h : ReferenceName name) (tail : List Char) :
    takeName? (name ++ '#' :: tail) = some (name, tail) := by
  induction name with
  | nil => rfl
  | cons c rest ih =>
    obtain ⟨hmarker, hline⟩ := h c (by simp)
    have hrest := ih fun x hx => h x (List.mem_cons_of_mem c hx)
    rw [List.cons_append, takeName?, if_neg hmarker, if_neg hline, hrest]
    rfl

theorem ofText_plain {c : Char} (h : c ≠ '#') (tail : List Char) :
    ofText (c :: tail) = .plain c :: ofText tail := by
  rw [ofText, if_neg h]

theorem ofText_reference {name : List Char} (h : ReferenceName name) (tail : List Char) :
    ofText ('#' :: (name ++ '#' :: tail)) = .reference name :: ofText tail := by
  rw [ofText, if_pos rfl]
  split
  · rename_i found after hfound
    rw [takeName?_append h, Option.some.injEq, Prod.mk.injEq] at hfound
    rw [← hfound.1, ← hfound.2]
  · rename_i hnone
    rw [takeName?_append h] at hnone
    cases hnone

end Piece

/-! ## Filled texts -/

/-- The text becomes the other one when its references are replaced, whatever
follows it. -/
def Fills (vars : Variables) (cs ds : List Char) : Prop :=
  ∀ tail, fillPieces vars (Piece.ofText (cs ++ tail)) =
    (fillPieces vars (Piece.ofText tail)).map (ds ++ ·)

variable {vars : Variables} {cs cs' ds ds' : List Char}

theorem fillPieces_cons {p : Piece} {s : List Char} (h : p.text vars = .ok s)
    (pieces : List Piece) :
    fillPieces vars (p :: pieces) = (fillPieces vars pieces).map (s ++ ·) := by
  rw [fillPieces, h]
  cases fillPieces vars pieces with
  | error f => rfl
  | ok ss => rfl

theorem Fills.nil : Fills vars [] [] := by
  intro tail
  rw [List.nil_append]
  cases fillPieces vars (Piece.ofText tail) with
  | error f => rfl
  | ok ss => rfl

theorem Fills.append (h : Fills vars cs ds) (h' : Fills vars cs' ds') :
    Fills vars (cs ++ cs') (ds ++ ds') := by
  intro tail
  rw [List.append_assoc, h, h']
  cases fillPieces vars (Piece.ofText tail) with
  | error f => rfl
  | ok ss =>
    simp only [Except.map, List.append_assoc]

theorem Fills.cons {c : Char} (hc : c ≠ '#') (h : Fills vars cs ds) :
    Fills vars (c :: cs) (c :: ds) := by
  intro tail
  have hplain : (Piece.plain c).text vars = .ok [c] := rfl
  rw [List.cons_append, Piece.ofText_plain hc, fillPieces_cons hplain, h]
  cases fillPieces vars (Piece.ofText tail) with
  | error f => rfl
  | ok ss => rfl

/-- A text without markers stays as it is. -/
theorem fills_plain (h : ∀ c ∈ cs, c ≠ '#') : Fills vars cs cs := by
  induction cs with
  | nil => exact .nil
  | cons c rest ih => exact (ih fun x hx => h x (List.mem_cons_of_mem c hx)).cons (h c (by simp))

/-- A name between markers becomes the text of its value. -/
theorem fills_reference {name : List Char} (hname : ReferenceName name) {s : List Char}
    (h : resolve vars (String.ofList name) = .ok s) :
    Fills vars ('#' :: (name ++ ['#'])) s := by
  intro tail
  have htext : (Piece.reference name).text vars = .ok s := h
  have hsplit : '#' :: (name ++ ['#']) ++ tail = '#' :: (name ++ '#' :: tail) := by simp
  rw [hsplit, Piece.ofText_reference hname, fillPieces_cons htext]

theorem Fills.substitute (h : Fills vars cs ds) :
    Worksheet.substitute (String.ofList cs) vars = .ok (String.ofList ds) := by
  have hnil : Piece.ofText [] = [] := by rw [Piece.ofText]
  have hall := h []
  rw [List.append_nil, hnil] at hall
  unfold Worksheet.substitute
  rw [String.toList_ofList, hall]
  simp [fillPieces, Except.map]

end Worksheet
