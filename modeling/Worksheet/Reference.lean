-- References. An expression names other columns between markers. Markers
-- pair up from the left within a line, and a marker without a partner is
-- an ordinary character. Substitution puts the value of a column in the
-- place of its reference; what it puts in is not read again.
import Worksheet.Display
import Worksheet.OrderedMap

namespace Worksheet

/-! ## Pieces of an expression -/

/-- One piece: a character that stays, or a name between two markers. -/
inductive Piece where
  | plain (c : Char)
  | reference (name : List Char)
deriving DecidableEq

namespace Piece

/-- The name up to the next marker on the same line, and what follows the
marker. -/
def takeName? : List Char → Option (List Char × List Char)
  | [] => none
  | c :: cs =>
    if c = '#' then some ([], cs)
    else if c = '\n' then none
    else (takeName? cs).map fun p => (c :: p.1, p.2)

theorem length_of_takeName? {cs name rest : List Char}
    (h : takeName? cs = some (name, rest)) : rest.length < cs.length := by
  induction cs generalizing name rest with
  | nil => simp [takeName?] at h
  | cons c cs ih =>
    rw [takeName?] at h
    split at h
    · simp only [Option.some.injEq, Prod.mk.injEq] at h
      rw [← h.2]
      exact Nat.lt_succ_self _
    · split at h
      · simp at h
      · rw [Option.map_eq_some_iff] at h
        obtain ⟨⟨n, r⟩, hp, he⟩ := h
        simp only [Prod.mk.injEq] at he
        have := ih hp
        rw [← he.2]
        exact Nat.lt_succ_of_lt this

/-- The pieces of an expression, in order. -/
def ofText (cs : List Char) : List Piece :=
  match cs with
  | [] => []
  | c :: rest =>
    if c = '#' then
      match _h : takeName? rest with
      | some (name, after) => .reference name :: ofText after
      | none => .plain c :: ofText rest
    else .plain c :: ofText rest
termination_by cs.length
decreasing_by
  · have := length_of_takeName? _h
    simp only [List.length_cons]
    omega
  · simp
  · simp

/-- The name of a reference. -/
def name? : Piece → Option String
  | .plain _ => none
  | .reference name => some (String.ofList name)

end Piece

/-! ## References and substitution -/

/-- The values that references may stand for, by name. -/
abbrev Variables := OrderedMap String Value

/-- The list with only the first of equal members. -/
def firstSeen : List String → List String
  | [] => []
  | a :: rest => a :: (firstSeen rest).filter (· != a)

/-- The names that an expression refers to, each once, in the order in
which they first stand. -/
def references (expression : String) : List String :=
  firstSeen ((Piece.ofText expression.toList).filterMap Piece.name?)

/-- The text that stands for a reference. A value without text, or no
value at all, leaves the reference unresolved. -/
def resolve (vars : Variables) (name : String) : Except Fault (List Char) :=
  match vars.get? name with
  | none => .error (.unresolvedVariable name)
  | some v =>
    match v.display with
    | .error f => .error f
    | .ok s => if s = "" then .error (.unresolvedVariable name) else .ok s.toList

/-- The text of one piece. -/
def Piece.text (vars : Variables) : Piece → Except Fault (List Char)
  | .plain c => .ok [c]
  | .reference name => resolve vars (String.ofList name)

/-- The texts of pieces, one after the other; the first fault ends it. -/
def fillPieces (vars : Variables) : List Piece → Except Fault (List Char)
  | [] => .ok []
  | p :: rest =>
    match p.text vars with
    | .error f => .error f
    | .ok s =>
      match fillPieces vars rest with
      | .error f => .error f
      | .ok ss => .ok (s ++ ss)

/-- The expression with its references replaced. -/
def substitute (expression : String) (vars : Variables) : Except Fault String :=
  (fillPieces vars (Piece.ofText expression.toList)).map String.ofList

end Worksheet
