-- What an evaluation reads. Of its variables it takes the texts of the names
-- in the expression and nothing else. The first of these names without a text
-- leaves the expression unresolved, and where each has a text the engine has
-- the last word.
import Worksheet.Proofs.Display
import Worksheet.Proofs.OrderedMap
import Worksheet.Proofs.Reference.Pairing

namespace Worksheet

/-! ## The texts of names -/

/-- What a name shows: its value, and the empty text if it has none. -/
def nameText (vars : Variables) (name : String) : Except Fault String :=
  match vars.get? name with
  | none => .ok ""
  | some v => v.display

/-- The name shows nothing. -/
def showsNothing (vars : Variables) (name : String) : Bool := decide (nameText vars name = .ok "")

/-- A reference is resolved by the text of its name. -/
theorem resolve_eq (vars : Variables) (name : String) :
    resolve vars name =
      match nameText vars name with
      | .error f => .error f
      | .ok s => if s = "" then .error (.unresolvedVariable name) else .ok s.toList := by
  unfold resolve nameText
  cases vars.get? name with
  | none => rfl
  | some v => rfl

theorem resolve_of_showsNothing {vars : Variables} {name : String}
    (h : showsNothing vars name = true) :
    resolve vars name = .error (.unresolvedVariable name) := by
  rw [resolve_eq, of_decide_eq_true h]
  rfl

/-- Where no value is a list, a name that shows something has a text. -/
theorem exists_resolve {vars : Variables} {name : String}
    (hvars : ∀ v, vars.get? name = some v → v.IsScalar)
    (h : showsNothing vars name = false) : ∃ s, resolve vars name = .ok s := by
  have htext : ∃ s, nameText vars name = .ok s := by
    unfold nameText
    cases hv : vars.get? name with
    | none => exact ⟨"", rfl⟩
    | some v => exact (hvars v hv).exists_display
  obtain ⟨s, hs⟩ := htext
  have hne : s ≠ "" := by
    rintro rfl
    exact of_decide_eq_false h hs
  refine ⟨s.toList, ?_⟩
  rw [resolve_eq, hs]
  exact if_neg hne

/-! ## The pieces of an expression -/

/-- Pieces are filled alike where their names show the same. -/
theorem fillPieces_congr {vars vars' : Variables} {pieces : List Piece}
    (h : ∀ name ∈ pieces.filterMap Piece.name?, nameText vars' name = nameText vars name) :
    fillPieces vars' pieces = fillPieces vars pieces := by
  induction pieces with
  | nil => rfl
  | cons p rest ih =>
    have hrest := ih fun name hname =>
      h name (List.Sublist.mem hname (List.Sublist.filterMap _ (List.sublist_cons_self p rest)))
    have htext : p.text vars' = p.text vars := by
      cases p with
      | plain c => rfl
      | reference name =>
        have hname := h (String.ofList name) (by simp [Piece.name?])
        unfold Piece.text
        dsimp only
        rw [resolve_eq, resolve_eq, hname]
    rw [fillPieces, fillPieces, htext, hrest]

/-- Filling stops at the first name that shows nothing, and if there is none
it comes to a text. -/
theorem fillPieces_cases {vars : Variables}
    (hvars : ∀ name v, vars.get? name = some v → v.IsScalar) (pieces : List Piece) :
    match (pieces.filterMap Piece.name?).find? (showsNothing vars) with
    | some name => fillPieces vars pieces = .error (.unresolvedVariable name)
    | none => ∃ text, fillPieces vars pieces = .ok text := by
  induction pieces with
  | nil => exact ⟨[], rfl⟩
  | cons p rest ih =>
    -- a piece with a text hands the question to the rest
    have hstep : ∀ s, p.text vars = .ok s →
        match (rest.filterMap Piece.name?).find? (showsNothing vars) with
        | some name => fillPieces vars (p :: rest) = .error (.unresolvedVariable name)
        | none => ∃ text, fillPieces vars (p :: rest) = .ok text := by
      intro s hs
      rw [fillPieces_cons hs]
      split at ih
      · rw [ih]
        rfl
      · obtain ⟨text, htext⟩ := ih
        rw [htext]
        exact ⟨s ++ text, rfl⟩
    cases p with
    | plain c => exact hstep [c] rfl
    | reference name =>
      rw [List.filterMap_cons_some (show Piece.name? (.reference name) = _ from rfl),
        List.find?_cons]
      cases hshows : showsNothing vars (String.ofList name) with
      | true =>
        have htext : (Piece.reference name).text vars = .error (.unresolvedVariable _) :=
          resolve_of_showsNothing hshows
        dsimp only
        rw [fillPieces, htext]
      | false =>
        obtain ⟨s, hs⟩ := exists_resolve (hvars _) hshows
        exact hstep s hs

/-- Repeats change nothing about the first name with a property. -/
theorem find?_firstSeen (p : String → Bool) (names : List String) :
    (firstSeen names).find? p = names.find? p := by
  induction names with
  | nil => rfl
  | cons a rest ih =>
    rw [firstSeen, List.find?_cons, List.find?_cons]
    cases ha : p a with
    | true => rfl
    | false =>
      have hother : (fun b => decide ((b != a) = true ∧ p b = true)) = p := by
        funext b
        by_cases hb : b = a
        · simp [hb, ha]
        · simp [hb]
      rw [List.find?_filter, hother]
      exact ih

/-! ## The evaluation of an expression -/

theorem mem_variableSet (name e : String) :
    name ∈ variableSet e ↔ name ∈ (Piece.ofText e.toList).filterMap Piece.name? := by
  unfold variableSet
  exact List.mem_toFinset

namespace Evaluator

/-- A text without references is never unresolved. -/
theorem evaluateText_ne_unresolved (ev : Evaluator) (text detail : String) :
    ev.evaluateText text ≠ .failure ⟨.unresolvedVariable, detail⟩ := by
  unfold evaluateText
  split
  · exact nofun
  · split <;> exact nofun

/-- The first name that shows nothing fails the expression, and if there is
none the engine is asked. -/
theorem evaluate_cases (ev : Evaluator) (e : String) {vars : Variables}
    (hvars : ∀ name v, vars.get? name = some v → v.IsScalar) :
    match (references e).find? (showsNothing vars) with
    | some name => ev.evaluate e vars =
        .ok (.failure ⟨.unresolvedVariable, (Fault.unresolvedVariable name).message⟩)
    | none => ∃ text, ev.evaluate e vars = .ok (ev.evaluateText text) := by
  have hfill := fillPieces_cases hvars (Piece.ofText e.toList)
  unfold references evaluate substitute
  rw [find?_firstSeen]
  split at hfill
  · rw [hfill]
    rfl
  · obtain ⟨text, htext⟩ := hfill
    rw [htext]
    exact ⟨String.ofList text, rfl⟩

/-! ## The law -/

/-- Where no value is a list, an expression has an outcome. It is unresolved if
and only if one of the names that it refers to shows nothing, and the detail
tells the first of them. Whatever else the variables hold, all that counts is
what these names show. -/
theorem evaluation_reads_references (ev : Evaluator) (e : String) (vars : Variables)
    (hvars : ∀ name v, vars.get? name = some v → v.IsScalar) :
    (∃ outcome, ev.evaluate e vars = .ok outcome) ∧
      ((∃ detail, ev.evaluate e vars = .ok (.failure ⟨.unresolvedVariable, detail⟩)) ↔
        ∃ name ∈ variableSet e, nameText vars name = .ok "") ∧
      (∀ name, (references e).find? (fun n => decide (nameText vars n = .ok "")) = some name →
        ev.evaluate e vars =
          .ok (.failure ⟨.unresolvedVariable, "Unresolved variable: " ++ Text.quoted name⟩)) ∧
      ∀ vars' : Variables, (∀ name ∈ variableSet e, nameText vars' name = nameText vars name) →
        ev.evaluate e vars' = ev.evaluate e vars := by
  have hcases := ev.evaluate_cases e hvars
  have hblank : (∃ name ∈ variableSet e, nameText vars name = .ok "") ↔
      ((references e).find? (showsNothing vars)).isSome = true := by
    rw [variableSet_eq, List.find?_isSome]
    simp [showsNothing]
  have hsame : ∀ vars' : Variables,
      (∀ name ∈ variableSet e, nameText vars' name = nameText vars name) →
        ev.evaluate e vars' = ev.evaluate e vars := by
    intro vars' h
    have hfill : fillPieces vars' (Piece.ofText e.toList) =
        fillPieces vars (Piece.ofText e.toList) :=
      fillPieces_congr fun name hname => h name ((mem_variableSet name e).mpr hname)
    unfold evaluate substitute
    rw [hfill]
  cases hfirst : (references e).find? (showsNothing vars) with
  | some name =>
    rw [hfirst] at hcases hblank
    refine ⟨⟨_, hcases⟩, ⟨fun _ => hblank.mpr rfl, fun _ => ⟨_, hcases⟩⟩, ?_, hsame⟩
    intro other hother
    obtain rfl : name = other := Option.some.inj (hfirst.symm.trans hother)
    exact hcases
  | none =>
    rw [hfirst] at hcases hblank
    obtain ⟨text, htext⟩ := hcases
    refine ⟨⟨_, htext⟩, ⟨?_, fun h => absurd (hblank.mp h) nofun⟩, ?_, hsame⟩
    · rintro ⟨detail, hdetail⟩
      rw [htext, Except.ok.injEq] at hdetail
      exact absurd hdetail (ev.evaluateText_ne_unresolved text detail)
    · intro other hother
      exact absurd (hfirst.symm.trans hother) nofun

/-- The empty name stands between two markers side by side, and it has no
value. So it counts as a reference, and it comes before a name that is not
there; a text with the digits of an integer counts as that integer. -/
theorem empty_name_is_read :
    let vars : Variables := .ofList [("a", .int 2), ("", .empty)]
    let others : Variables := .ofList [("x", .list []), ("a", .text "2")]
    (∀ name v, vars.get? name = some v → v.IsScalar) ∧
      variableSet "#a#+##*#b##" = ["a", "", "b"].toFinset ∧
      builtIn.evaluate "#a#+##*#b##" vars =
        .ok (.failure ⟨.unresolvedVariable, "Unresolved variable: ''"⟩) ∧
      builtIn.evaluate "#a#+##*#b##" others = builtIn.evaluate "#a#+##*#b##" vars := by
  intro vars others
  have hscalar : ∀ name v, vars.get? name = some v → v.IsScalar := by
    intro name v hv
    rcases (by simpa using OrderedMap.mem_of_get?_ofList hv :
      name = "a" ∧ v = .int 2 ∨ name = "" ∧ v = .empty) with ⟨-, rfl⟩ | ⟨-, rfl⟩
    · trivial
    · trivial
  have hset : variableSet "#a#+##*#b##" = ["a", "", "b"].toFinset := by decide +kernel
  obtain ⟨-, -, hfirst, hsame⟩ := evaluation_reads_references builtIn "#a#+##*#b##" vars hscalar
  refine ⟨hscalar, hset, hfirst "" (by decide +kernel), hsame others ?_⟩
  rw [hset]
  intro name hname
  rcases (by simpa using hname : name = "a" ∨ name = "" ∨ name = "b") with rfl | rfl | rfl
  · rfl
  · rfl
  · rfl

end Evaluator

end Worksheet
