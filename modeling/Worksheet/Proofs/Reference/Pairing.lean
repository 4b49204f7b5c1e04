-- References by lines. Cut a text at its line breaks and each line at its
-- markers. Every second part of a line then stands between the two markers of
-- a pair, as long as the second of the two is there. The names that an
-- expression refers to, and the text that substitution makes of it, can be
-- read off these parts without scanning.
import Mathlib.Data.Finset.Dedup
import Worksheet.Proofs.Reference.Filling

namespace Worksheet

/-! ## Pairs of markers -/

/-- The parts of a line that stand between the markers of a pair, in order. -/
def enclosedParts : List (List Char) → List (List Char)
  | _ :: name :: next :: rest => name :: enclosedParts (next :: rest)
  | _ => []

/-- The line with a text in the place of each pair and the name in it. What
is left without a pair goes on as it is, with its marker if there is one. -/
def filledParts (texts : String → String) : List (List Char) → List Char
  | part :: name :: next :: rest =>
    part ++ (texts (String.ofList name)).toList ++ filledParts texts (next :: rest)
  | parts => ['#'].intercalate parts

/-- The names that stand between markers, over all lines, in order. -/
def enclosed (expression : String) : List String :=
  (expression.toList.splitOn '\n').flatMap fun line =>
    (enclosedParts (line.splitOn '#')).map String.ofList

/-- The expression with a text in the place of each pair and the name in it. -/
def filled (texts : String → String) (expression : String) : String :=
  String.ofList (['\n'].intercalate ((expression.toList.splitOn '\n').map fun line =>
    filledParts texts (line.splitOn '#')))

/-- The names that an expression refers to, as a set. -/
def variableSet (expression : String) : Finset String :=
  ((Piece.ofText expression.toList).filterMap Piece.name?).toFinset

/-! ## Cutting and joining -/

/-- A part of a cut text has characters of the text only, and not the one
where it was cut. -/
theorem mem_and_ne_of_mem_splitOn {sep c : Char} {cs part : List Char}
    (hpart : part ∈ cs.splitOn sep) (hc : c ∈ part) : c ∈ cs ∧ c ≠ sep := by
  rw [List.splitOn_eq_splitOnP] at hpart
  induction cs generalizing part with
  | nil => simp_all
  | cons a rest ih =>
    rw [List.splitOnP_cons_eq_if_modifyHead] at hpart
    split at hpart
    · rcases List.mem_cons.mp hpart with rfl | hpart
      · cases hc
      · exact (ih hpart hc).imp_left (List.mem_cons_of_mem a)
    · rename_i hne
      cases hparts : List.splitOnP (· == sep) rest with
      | nil => simp [hparts] at hpart
      | cons first others =>
        rw [hparts, List.modifyHead_cons] at hpart
        rw [hparts] at ih
        rcases List.mem_cons.mp hpart with rfl | hpart
        · rcases List.mem_cons.mp hc with rfl | hc
          · exact ⟨by simp, by simpa using hne⟩
          · exact (ih (by simp) hc).imp_left (List.mem_cons_of_mem a)
        · exact (ih (List.mem_cons_of_mem first hpart) hc).imp_left (List.mem_cons_of_mem a)

theorem filterMap_intercalate {α β : Type} {f : α → Option β} {sep : List α}
    (hsep : sep.filterMap f = []) (parts : List (List α)) :
    (sep.intercalate parts).filterMap f = parts.flatMap (·.filterMap f) := by
  induction parts with
  | nil => simp
  | cons part rest ih =>
    cases rest with
    | nil => simp
    | cons next rest =>
      rw [List.intercalate_cons_cons, List.filterMap_append, List.filterMap_append, ih, hsep]
      simp

theorem flatMap_intercalate {α β : Type} (f : α → List β) (sep : List α)
    (parts : List (List α)) :
    (sep.intercalate parts).flatMap f = (sep.flatMap f).intercalate (parts.map (·.flatMap f)) := by
  induction parts with
  | nil => simp
  | cons part rest ih =>
    cases rest with
    | nil => simp
    | cons next rest =>
      rw [List.intercalate_cons_cons, List.flatMap_append, List.flatMap_append, ih,
        List.map_cons, List.map_cons, List.map_cons, List.intercalate_cons_cons]

/-! ## The pieces of a line -/

namespace Piece

/-- The pieces of a line, from its parts. -/
def ofParts : List (List Char) → List Piece
  | part :: name :: next :: rest =>
    part.map plain ++ reference name :: ofParts (next :: rest)
  | parts => (['#'].intercalate parts).map plain

/-- What stands in the filled text for a piece. -/
def filling (texts : String → String) : Piece → List Char
  | plain c => [c]
  | reference name => (texts (String.ofList name)).toList

/-- The text is over, or its line is. -/
def LineOver (cs : List Char) : Prop := cs = [] ∨ ∃ rest, cs = '\n' :: rest

theorem ofText_plains {cs : List Char} (h : ∀ c ∈ cs, c ≠ '#') (tail : List Char) :
    ofText (cs ++ tail) = cs.map plain ++ ofText tail := by
  induction cs with
  | nil => rfl
  | cons c rest ih =>
    have hrest := ih fun x hx => h x (List.mem_cons_of_mem c hx)
    rw [List.cons_append, ofText_plain (h c (by simp)), hrest, List.map_cons, List.cons_append]

/-- No name is read where no other marker stands on the line. -/
theorem takeName?_eq_none {cs tail : List Char} (h : ∀ c ∈ cs, c ≠ '#') (htail : LineOver tail) :
    takeName? (cs ++ tail) = none := by
  induction cs with
  | nil =>
    obtain rfl | ⟨rest, rfl⟩ := htail
    · rfl
    · rfl
  | cons c rest ih =>
    have hrest := ih fun x hx => h x (List.mem_cons_of_mem c hx)
    rw [List.cons_append, takeName?, if_neg (h c (by simp)), hrest]
    split
    · rfl
    · rfl

/-- A marker without a partner on its line is an ordinary character. -/
theorem ofText_unpaired {cs : List Char} (h : takeName? cs = none) :
    ofText ('#' :: cs) = plain '#' :: ofText cs := by
  rw [ofText, if_pos rfl]
  split
  · rename_i found after hfound
    rw [h] at hfound
    cases hfound
  · rfl

/-- The scan of a line is its parts. The rest of the text is scanned afresh,
since no name goes past the end of the line. -/
theorem ofText_line {parts : List (List Char)} (hparts : ∀ part ∈ parts, ReferenceName part)
    {tail : List Char} (htail : LineOver tail) :
    ofText (['#'].intercalate parts ++ tail) = ofParts parts ++ ofText tail := by
  have hplain : ∀ part ∈ parts, ∀ c ∈ part, c ≠ '#' := fun part hp c hc => (hparts part hp c hc).1
  induction parts using ofParts.induct with
  | case1 part name next rest ih =>
    have hrest := ih (fun p hp => hparts p (by simp_all)) (fun p hp => hplain p (by simp_all))
    have hline : ['#'].intercalate (part :: name :: next :: rest) ++ tail =
        part ++ '#' :: (name ++ '#' :: (['#'].intercalate (next :: rest) ++ tail)) := by
      simp [List.intercalate_cons_cons]
    rw [hline, ofText_plains (hplain part (by simp)),
      ofText_reference (hparts name (by simp)), hrest]
    simp [ofParts]
  | case2 parts hshort =>
    match parts with
    | [] => simp [ofParts]
    | [part] =>
      rw [List.intercalate_singleton, ofText_plains (hplain part (by simp)), ofParts,
        List.intercalate_singleton]
      simp
    | [part, last] =>
      have hlast := hplain last (by simp)
      have hline : ['#'].intercalate [part, last] ++ tail = part ++ '#' :: (last ++ tail) := by
        simp [List.intercalate_cons_cons]
      rw [hline, ofText_plains (hplain part (by simp)),
        ofText_unpaired (takeName?_eq_none hlast htail), ofText_plains hlast]
      simp [ofParts, List.intercalate_cons_cons]
    | part :: name :: next :: rest => exact absurd rfl (hshort part name next rest)

/-- The scan of a text is that of its lines, one after the other. -/
theorem ofText_lines {lines : List (List Char)} (hlines : ∀ line ∈ lines, '\n' ∉ line) :
    ofText (['\n'].intercalate lines) =
      [plain '\n'].intercalate (lines.map fun line => ofParts (line.splitOn '#')) := by
  have hscan : ∀ line ∈ lines, ∀ tail, LineOver tail →
      ofText (line ++ tail) = ofParts (line.splitOn '#') ++ ofText tail := by
    intro line hline tail htail
    have hparts : ∀ part ∈ line.splitOn '#', ReferenceName part := by
      intro part hpart c hc
      obtain ⟨hmem, hne⟩ := mem_and_ne_of_mem_splitOn hpart hc
      exact ⟨hne, fun he => hlines line hline (he ▸ hmem)⟩
    simpa only [List.intercalate_splitOn] using ofText_line hparts htail
  have hnil : ofText [] = [] := by rw [ofText]
  induction lines with
  | nil => simpa using hnil
  | cons line rest ih =>
    cases rest with
    | nil => simpa [hnil] using hscan line (by simp) [] (.inl rfl)
    | cons next rest =>
      have hrest := ih (fun l hl => hlines l (List.mem_cons_of_mem line hl))
        fun l hl => hscan l (List.mem_cons_of_mem line hl)
      rw [List.intercalate_cons_cons, List.append_assoc, List.singleton_append,
        hscan line (by simp) _ (.inr ⟨_, rfl⟩), ofText_plain (by decide), hrest]
      simp [List.intercalate_cons_cons]

/-! ## Names and fillings -/

theorem names_ofParts (parts : List (List Char)) :
    (ofParts parts).filterMap name? = (enclosedParts parts).map String.ofList := by
  have hplain : ∀ cs : List Char, (cs.map plain).filterMap name? = [] := by
    intro cs
    simp [List.filterMap_map, Function.comp_def, name?]
  induction parts using ofParts.induct with
  | case1 part name next rest ih => simp [ofParts, enclosedParts, hplain, name?, ih]
  | case2 parts hshort =>
    rw [ofParts, enclosedParts, hplain, List.map_nil]
    · exact hshort
    · exact hshort

theorem filling_ofParts (texts : String → String) (parts : List (List Char)) :
    (ofParts parts).flatMap (filling texts) = filledParts texts parts := by
  have hplain : ∀ cs : List Char, (cs.map plain).flatMap (filling texts) = cs := by
    intro cs
    simp [List.flatMap_map, filling]
  induction parts using ofParts.induct with
  | case1 part name next rest ih => simp [ofParts, filledParts, hplain, filling, ih]
  | case2 parts hshort =>
    rw [ofParts, filledParts, hplain]
    · exact hshort
    · exact hshort

theorem ofText_toList (e : String) :
    ofText e.toList = [plain '\n'].intercalate
      ((e.toList.splitOn '\n').map fun line => ofParts (line.splitOn '#')) := by
  have hlines : ∀ line ∈ e.toList.splitOn '\n', '\n' ∉ line :=
    fun line hline hc => (mem_and_ne_of_mem_splitOn hline hc).2 rfl
  simpa only [List.intercalate_splitOn] using ofText_lines hlines

theorem names_ofText (e : String) : (ofText e.toList).filterMap name? = enclosed e := by
  rw [ofText_toList, filterMap_intercalate rfl, List.flatMap_map]
  simp only [names_ofParts]
  rfl

theorem filling_ofText (texts : String → String) (e : String) :
    String.ofList ((ofText e.toList).flatMap (filling texts)) = filled texts e := by
  rw [ofText_toList, flatMap_intercalate, List.map_map]
  simp only [Function.comp_def, filling_ofParts]
  rfl

end Piece

/-- Pieces whose names all have a text are filled with these texts. -/
theorem fillPieces_eq_ok {vars : Variables} {texts : String → String} {pieces : List Piece}
    (h : ∀ name ∈ pieces.filterMap Piece.name?, resolve vars name = .ok (texts name).toList) :
    fillPieces vars pieces = .ok (pieces.flatMap (Piece.filling texts)) := by
  induction pieces with
  | nil => rfl
  | cons p rest ih =>
    have htext : p.text vars = .ok (p.filling texts) := by
      cases p with
      | plain c => rfl
      | reference name => exact h _ (by simp [Piece.name?])
    have hrest := ih fun name hname => by
      refine h name ?_
      rw [List.filterMap_cons]
      split
      · exact hname
      · exact List.mem_cons_of_mem _ hname
    rw [fillPieces_cons htext, hrest, List.flatMap_cons]
    rfl

theorem resolve_eq_ok {vars : Variables} {name s : String} {v : Value}
    (hget : vars.get? name = some v) (hshown : v.display = .ok s) (hs : s ≠ "") :
    resolve vars name = .ok s.toList := by
  unfold resolve
  simp only [hget, hshown, if_neg hs]

/-! ## Each name once -/

theorem firstSeen_filter (p : String → Bool) (names : List String) :
    firstSeen (names.filter p) = (firstSeen names).filter p := by
  induction names with
  | nil => rfl
  | cons a rest ih =>
    by_cases ha : p a = true
    · rw [List.filter_cons_of_pos ha, firstSeen, firstSeen, List.filter_cons_of_pos ha, ih,
        List.filter_comm]
    · rw [List.filter_cons_of_neg ha, firstSeen, List.filter_cons_of_neg ha, ih,
        List.filter_filter]
      refine (List.filter_congr fun b _ => ?_).symm
      by_cases hb : b = a
      · simp [hb, ha]
      · simp [hb]

theorem firstSeen_eq_eraseDups (names : List String) : firstSeen names = names.eraseDups := by
  match names with
  | [] => rfl
  | a :: rest =>
    have hlen : (rest.filter (· != a)).length ≤ rest.length := List.length_filter_le ..
    have hrest := firstSeen_eq_eraseDups (rest.filter (· != a))
    rw [firstSeen, ← firstSeen_filter, hrest, List.eraseDups_cons]
    rfl
termination_by names.length
decreasing_by
  simp only [List.length_cons]
  omega

theorem references_eq (e : String) : references e = (enclosed e).eraseDups := by
  unfold references
  rw [Piece.names_ofText, firstSeen_eq_eraseDups]

theorem variableSet_eq (e : String) : variableSet e = (references e).toFinset := by
  ext name
  simp [variableSet, Piece.names_ofText, references_eq]

/-! ## The law of references -/

/-- The scan finds the names between paired markers. Their list without
repeats, and their set, are the references, and substitution puts a text in
the place of each pair and leaves everything else. -/
theorem references_paired_in_lines (e : String) :
    references e = (enclosed e).eraseDups ∧
      variableSet e = (enclosed e).toFinset ∧
      ∀ (vars : Variables) (texts : String → String),
        (∀ name ∈ enclosed e, ∃ v, vars.get? name = some v ∧
          v.display = .ok (texts name) ∧ texts name ≠ "") →
        substitute e vars = .ok (filled texts e) := by
  refine ⟨references_eq e, ?_, ?_⟩
  · rw [variableSet_eq, references_eq]
    ext name
    simp
  · intro vars texts h
    have hresolve : ∀ name ∈ (Piece.ofText e.toList).filterMap Piece.name?,
        resolve vars name = .ok (texts name).toList := by
      intro name hname
      rw [Piece.names_ofText] at hname
      obtain ⟨v, hget, hshown, hne⟩ := h name hname
      exact resolve_eq_ok hget hshown hne
    unfold substitute
    rw [fillPieces_eq_ok hresolve, ← Piece.filling_ofText]
    rfl

theorem references_of_two_lines :
    references "#a#b##+#x\ny#a#" = ["a", ""] ∧
      variableSet "#a#b##+#x\ny#a#" = ["a", ""].toFinset ∧
      substitute "#a#b##+#x\ny#a#"
          (.ofList [("a", .text "#\n#"), ("", .text "#a#")]) =
        .ok "#\n#b#a#+#x\ny#\n#" := by
  obtain ⟨hlist, hset, hfilled⟩ := references_paired_in_lines "#a#b##+#x\ny#a#"
  have hnames : enclosed "#a#b##+#x\ny#a#" = ["a", "", "a"] := by decide
  rw [hnames] at hlist hset
  refine ⟨hlist.trans (by decide), hset.trans (by decide), ?_⟩
  refine (hfilled _ (fun name => if name = "a" then "#\n#" else "#a#") ?_).trans ?_
  · rw [hnames]
    intro name hname
    rcases (by simpa using hname : name = "a" ∨ name = "" ∨ name = "a") with rfl | rfl | rfl
    · exact ⟨.text "#\n#", rfl, rfl, by decide⟩
    · exact ⟨.text "#a#", rfl, rfl, by decide⟩
    · exact ⟨.text "#\n#", rfl, rfl, by decide⟩
  · decide

end Worksheet
