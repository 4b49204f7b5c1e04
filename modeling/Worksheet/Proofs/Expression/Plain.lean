-- Grammars whose leaves are words, and the plain grammar among them: ASCII
-- spaces, literals, constants and names. What stands before a sign of a
-- rendering is the position of a sign, unless the sign is hidden, so it is
-- none of the operators. Outside all brackets a rendering has no operator that
-- is looser than its level.
import Worksheet.Proofs.Expression.Constant
import Worksheet.Proofs.Expression.Call
import Worksheet.Proofs.Expression.HiddenSign

namespace Worksheet.Expression

/-! ## The grammar -/

/-- The numbers and constants of the plain grammar. -/
inductive PlainLeaf : List Char → Expression → Prop
  | number (l : Literal) : PlainLeaf l.text (.number l.number)
  | constant {k : Constant} {cs : List Char} : Spells k cs → PlainLeaf cs (.constant k)

theorem PlainLeaf.word {cs : List Char} {e : Expression} (h : PlainLeaf cs e) : Word cs := by
  cases h with
  | number l => exact l.word
  | constant hk => exact hk.word

theorem PlainLeaf.leaf {cs : List Char} {e : Expression} (h : PlainLeaf cs e) : leaf cs = e := by
  cases h with
  | number l => exact l.leaf
  | constant hk => exact hk.leaf

/-- Expressions with ASCII spaces between their tokens. -/
def plain : Grammar where
  space c := c == ' '
  leaf := PlainLeaf
  name := IsName
  isBlank_of_space c h := by
    rw [beq_iff_eq] at h
    subst h
    decide
  noBrackets_of_leaf _ _ h := h.word.noBrackets
  isName_of_name _ h := h

/-- The leaves of the grammar are words, and each is read as its tree. -/
class Grammar.Legible (g : Grammar) : Prop where
  word : ∀ {cs e}, g.leaf cs e → Word cs
  leaf : ∀ {cs e}, g.leaf cs e → Expression.leaf cs = e

instance plain_legible : plain.Legible := ⟨PlainLeaf.word, PlainLeaf.leaf⟩

variable {g : Grammar}

theorem eq_of_mem_spaces {sp : List Char} (h : plain.Spaces sp) {c : Char} (hc : c ∈ sp) :
    c = ' ' := by simpa [plain] using h c hc

/-! ## Names -/

theorem not_isNamePart {x : Char} (h : x ∈ '+' :: '-' :: separators) : isNamePart x = false := by
  have hall : ∀ y ∈ '+' :: '-' :: separators, isNamePart y = false := by decide
  exact hall x h

/-- A letter of a name is neither a sign nor a separator. -/
theorem not_mem_of_isNamePart {c : Char} (h : isNamePart c = true) :
    c ∉ '+' :: '-' :: separators := by
  intro hc
  rw [not_isNamePart hc] at h
  cases h

/-! ## Positions of signs -/

theorem isSignPosition_cons {c : Char} (before : List Char) (h : c ≠ ' ') :
    isSignPosition (c :: before) = leadsOperand c := by
  unfold isSignPosition
  rw [List.dropWhile_cons_of_neg (by simpa using h)]

theorem Grammar.Spaces.reverse {sp : List Char} (h : g.Spaces sp) :
    g.Spaces sp.reverse := fun c hc => h c (List.mem_reverse.mp hc)

/-- After an operator and ASCII spaces stands a sign. -/
theorem isSignPosition_after {c : Char} {sp : List Char} (hsp : ∀ b ∈ sp, b = ' ')
    (hc : leadsOperand c = true) (before : List Char) :
    isSignPosition (sp.reverse ++ c :: before) = true := by
  have hne : c ≠ ' ' := by
    rintro rfl
    exact absurd hc (by decide)
  have hdrop : (sp.reverse ++ c :: before).dropWhile (· == ' ') = c :: before := by
    rw [List.dropWhile_append_of_pos fun b hb => by simpa using hsp b (List.mem_reverse.mp hb),
      List.dropWhile_cons_of_neg (by simpa using hne)]
  unfold isSignPosition
  rw [hdrop]
  exact hc

/-- The last character of an operator. -/
theorem exists_last_symbol (op : Operator) :
    ∃ init c, op.symbol.toList = init ++ [c] ∧ leadsOperand c = true := by
  rcases op with op | op
  · cases op with
    | plus => exact ⟨[], '+', rfl, rfl⟩
    | minus => exact ⟨[], '-', rfl, rfl⟩
    | times => exact ⟨[], '*', rfl, rfl⟩
    | divide => exact ⟨[], '/', rfl, rfl⟩
    | modulo => exact ⟨[], '%', rfl, rfl⟩
    | power => exact ⟨[], '^', rfl, rfl⟩
  · cases op with
    | greater => exact ⟨[], '>', rfl, rfl⟩
    | less => exact ⟨[], '<', rfl, rfl⟩
    | atLeast => exact ⟨['>'], '=', rfl, rfl⟩
    | atMost => exact ⟨['<'], '=', rfl, rfl⟩
    | equal => exact ⟨[], '=', rfl, rfl⟩
    | doubleEqual => exact ⟨['='], '=', rfl, rfl⟩
    | unequal => exact ⟨['<'], '>', rfl, rfl⟩
    | notEqual => exact ⟨['!'], '=', rfl, rfl⟩

theorem isSignPosition_after_symbol (op : Operator) {sp : List Char} (hsp : ∀ b ∈ sp, b = ' ')
    (front before : List Char) :
    isSignPosition ((front ++ op.symbol.toList ++ sp).reverse ++ before) = true := by
  obtain ⟨init, c, he, hc⟩ := exists_last_symbol op
  have hshape : (front ++ op.symbol.toList ++ sp).reverse ++ before =
      sp.reverse ++ c :: ((front ++ init).reverse ++ before) := by
    rw [he]
    simp
  rw [hshape]
  exact isSignPosition_after hsp hc _

/-- An arithmetic operator and a sign have ASCII spaces alone between them,
where no sign is hidden. -/
theorem spaces_after_symbol {op : Operator} (hop : op.precedence ≠ .comparison)
    {front sp r : List Char} (h : ¬ HidesSign (front ++ op.symbol.toList ++ (sp ++ r)))
    (hsp : Text.AllBlank sp) (hr : beginsWithSign r = true) : ∀ b ∈ sp, b = ' ' := by
  have hsymbol : ∃ y ∈ ['+', '-', '*', '/', '%', '^'], op.symbol.toList = [y] := by
    rcases op with op | op
    · cases op with
      | plus => exact ⟨'+', by decide, rfl⟩
      | minus => exact ⟨'-', by decide, rfl⟩
      | times => exact ⟨'*', by decide, rfl⟩
      | divide => exact ⟨'/', by decide, rfl⟩
      | modulo => exact ⟨'%', by decide, rfl⟩
      | power => exact ⟨'^', by decide, rfl⟩
    · exact absurd rfl hop
  obtain ⟨y, hy, he⟩ := hsymbol
  refine spaces_before_sign (fun hhides => h (hhides.mono ?_)) hy hsp hr
  exact ⟨front, [], by rw [he]; simp⟩

/-- After a character that leads an operand, or after blanks, no number ends. -/
theorem clear_of_leadsOperand {c : Char} (before : List Char) (h : leadsOperand c = true) :
    ClearOfNumbers (c :: before) := by
  intro x hx
  cases hx
  have hall : ∀ y ∈ ['(', ',', '+', '-', '*', '/', '%', '^', '>', '<', '=', '!'],
      Text.looksLikeDigit y = false ∧ y ≠ '.' := by decide
  exact hall c (mem_of_leadsOperand h)

theorem clear_after_symbol (op : Operator) {sp : List Char} (hsp : Text.AllBlank sp)
    (front before : List Char) :
    ClearOfNumbers ((front ++ op.symbol.toList ++ sp).reverse ++ before) := by
  obtain ⟨init, c, he, hc⟩ := exists_last_symbol op
  have hshape : (front ++ op.symbol.toList ++ sp).reverse ++ before =
      sp.reverse ++ c :: ((front ++ init).reverse ++ before) := by
    rw [he]
    simp
  rw [hshape]
  exact clear_of_isBlank hsp.reverse (clear_of_leadsOperand _ hc)

/-! ## Ends of an operand -/

/-- How the text of an operand begins and ends: with characters that are
part of no operator, but for a sign in front. -/
structure Operand (lvl : Level) (cs : List Char) : Prop where
  first : ∃ c rest, cs = c :: rest ∧ Text.isBlank c = false ∧ c ≠ '=' ∧ c ≠ '>' ∧
    (lvl.AsTight .power → c ≠ '+' ∧ c ≠ '-')
  last : ∃ init c, cs = init ++ [c] ∧ Text.isBlank c = false ∧ leadsOperand c = false
  ending : ∀ before, isSignPosition before = true →
    endsAtExponent (cs.reverse ++ before) = false

theorem leadsOperand_eq_false {c : Char} (h : c ∉ '+' :: '-' :: separators) :
    leadsOperand c = false := by
  cases hl : leadsOperand c with
  | false => rfl
  | true =>
    have hsub : ∀ x ∈ ['(', ',', '+', '-', '*', '/', '%', '^', '>', '<', '=', '!'],
        x ∈ '+' :: '-' :: separators := by decide
    exact absurd (hsub c (mem_of_leadsOperand hl)) h

theorem Word.operand {cs : List Char} (h : Word cs) (lvl : Level) : Operand lvl cs := by
  have hmem : ∀ c ∈ cs, c ≠ '+' ∧ c ≠ '-' → c ∉ '+' :: '-' :: separators := by
    intro c hc hs hin
    rw [List.mem_cons, List.mem_cons] at hin
    rcases hin with rfl | rfl | hin
    · exact hs.1 rfl
    · exact hs.2 rfl
    · exact (h.writes c hc).2 hin
  refine ⟨?_, ?_, h.ending⟩
  · obtain ⟨c, rest, he, hs⟩ := h.first
    have hc : c ∈ cs := by rw [he]; simp
    have hno := hmem c hc hs
    refine ⟨c, rest, he, (h.writes c hc).1, ?_, ?_, fun _ => hs⟩
    · rintro rfl
      exact hno (by decide)
    · rintro rfl
      exact hno (by decide)
  · obtain ⟨init, c, he, hs⟩ := h.last
    have hc : c ∈ cs := by rw [he]; simp
    exact ⟨init, c, he, (h.writes c hc).1, leadsOperand_eq_false (hmem c hc hs)⟩

/-- A text that ends with a bracket is an operand if it begins like one. -/
theorem operand_of_closing {lvl : Level} (front : List Char)
    (h : ∃ c rest, front ++ [')'] = c :: rest ∧ Text.isBlank c = false ∧
      c ∉ '+' :: '-' :: separators.tail) : Operand lvl (front ++ [')']) := by
  refine ⟨?_, ⟨front, ')', rfl, by decide, by decide⟩, fun before _ => ?_⟩
  · obtain ⟨c, rest, he, hb, hc⟩ := h
    refine ⟨c, rest, he, hb, ?_, ?_, fun _ => ⟨?_, ?_⟩⟩
    · rintro rfl
      exact hc (by decide)
    · rintro rfl
      exact hc (by decide)
    · rintro rfl
      exact hc (by decide)
    · rintro rfl
      exact hc (by decide)
  · rw [List.reverse_append, List.reverse_singleton, List.singleton_append, List.cons_append]
    exact endsAtExponent_cons (by decide) (by decide)

theorem operand_of_call {lvl : Level} {name : List Char} (h : IsName name) (front : List Char) :
    Operand lvl (name ++ front ++ [')']) := by
  obtain ⟨c, rest, rfl, hstart, -⟩ := h
  have hpart : isNamePart c = true := by
    unfold isNamePart
    rw [hstart]
    rfl
  refine operand_of_closing _ ⟨c, _, rfl, isBlank_of_isNamePart hpart, fun hc => ?_⟩
  have hsub : ∀ x ∈ '+' :: '-' :: separators.tail, x ∈ '+' :: '-' :: separators := by decide
  exact not_mem_of_isNamePart hpart (hsub c hc)

theorem Operand.ne_nil {lvl : Level} {cs : List Char} (h : Operand lvl cs) : cs ≠ [] := by
  obtain ⟨c, rest, he, -⟩ := h.first
  rw [he]
  simp

/-- An operand ends at no exponent mark where no number ends before it. -/
theorem Operand.ending_of_clear {lvl : Level} {cs before : List Char} (h : Operand lvl cs)
    (hbefore : ClearOfNumbers before) : endsAtExponent (cs.reverse ++ before) = false := by
  have hself := h.ending [] rfl
  rw [List.append_nil] at hself
  exact endsAtExponent_append_eq_false (List.reverse_ne_nil_iff.mpr h.ne_nil) hbefore hself

/-- A sign in front of an operand. -/
theorem Operand.signed {cs sp : List Char} {c : Char} (h : Operand .signed cs)
    (hsp : Text.AllBlank sp) (hc : c = '+' ∨ c = '-') : Operand .signed (c :: (sp ++ cs)) := by
  refine ⟨⟨c, sp ++ cs, rfl, ?_, ?_, ?_, fun ht => absurd ht (by decide)⟩, ?_, fun before _ => ?_⟩
  · rcases hc with rfl | rfl <;> decide
  · rcases hc with rfl | rfl <;> decide
  · rcases hc with rfl | rfl <;> decide
  · obtain ⟨init, x, he, hx⟩ := h.last
    exact ⟨c :: (sp ++ init), x, by rw [he]; simp, hx⟩
  · have hlead : leadsOperand c = true := by
      rcases hc with rfl | rfl <;> decide
    have hending := h.ending_of_clear
      (clear_of_isBlank hsp.reverse (clear_of_leadsOperand before hlead))
    have hshape : (c :: (sp ++ cs)).reverse ++ before =
        cs.reverse ++ (sp.reverse ++ c :: before) := by simp
    rw [hshape]
    exact hending

theorem Renders.operand [g.Legible] {lvl : Level} {cs : List Char} {e : Expression}
    (h : Renders g lvl cs e) : Operand lvl cs := by
  induction h with
  | leaf h => exact (Grammar.Legible.word h).operand _
  | @group sp sp' cs e hsp hsp' _ ih =>
    exact operand_of_closing ('(' :: (sp ++ cs ++ sp'))
      ⟨'(', _, rfl, by decide, by decide⟩
  | @emptyCall name sp sp' hname hsp hsp' =>
    have : Operand .primary _ := operand_of_call (g.isName_of_name _ hname) (sp ++ '(' :: sp')
    simpa using this
  | @call name sp args hname hsp _ _ _ _ =>
    have : Operand .primary _ :=
      operand_of_call (g.isName_of_name _ hname) (sp ++ '(' :: writtenAll args)
    simpa using this
  | negative hsp _ ih => exact ih.signed hsp.allBlank (Or.inr rfl)
  | positive hsp _ ih => exact ih.signed hsp.allBlank (Or.inl rfl)
  | @binary op l r sp sp' a b hsp hsp' _ _ ihl ihr =>
    refine ⟨?_, ?_, fun before hbefore => ?_⟩
    · obtain ⟨c, rest, he, hb, heq, hgt, hsign⟩ := ihl.first
      refine ⟨c, _, by rw [he]; rfl, hb, heq, hgt, fun ht => hsign ?_⟩
      revert ht
      cases op.precedence <;> decide
    · obtain ⟨init, c, he, hc⟩ := ihr.last
      exact ⟨l ++ sp ++ op.symbol.toList ++ (sp' ++ init), c, by rw [he]; simp, hc⟩
    · have hending := ihr.ending_of_clear (clear_after_symbol op hsp'.allBlank (l ++ sp) before)
      have hshape : (l ++ sp ++ op.symbol.toList ++ (sp' ++ r)).reverse ++ before =
          r.reverse ++ ((l ++ sp ++ op.symbol.toList ++ sp').reverse ++ before) := by simp
      rw [hshape]
      exact hending
  | loosen ht _ ih =>
    obtain ⟨⟨c, rest, he, hb, heq, hgt, hsign⟩, hlast, hending⟩ := ih
    exact ⟨⟨c, rest, he, hb, heq, hgt, fun hp => hsign (Nat.le_trans hp ht)⟩, hlast, hending⟩

/-! ## Operators outside brackets -/

theorem not_takes_of_not_mem {cls : Precedence} {before : List Char} {c : Char}
    (h : c ∉ '+' :: '-' :: separators) : ¬ Takes cls before c := by
  intro ht
  cases cls with
  | comparison =>
    rcases ht with rfl | rfl | rfl
    · exact h (by decide)
    · exact h (by decide)
    · exact h (by decide)
  | additive =>
    rcases ht.1 with rfl | rfl
    · exact h (by decide)
    · exact h (by decide)
  | multiplicative =>
    rcases ht with rfl | rfl | rfl
    · exact h (by decide)
    · exact h (by decide)
    · exact h (by decide)
  | power =>
    obtain rfl : c = '^' := ht
    exact h (by decide)

/-- A sign is an operator between summands only. -/
theorem additive_of_takes_sign {cls : Precedence} {before : List Char} {c : Char}
    (h : Takes cls before c) (hc : c = '+' ∨ c = '-') :
    cls = .additive ∧ isSignPosition before = false ∧ endsAtExponent before = false := by
  cases cls with
  | additive => exact ⟨rfl, h.2⟩
  | comparison =>
    rcases hc with rfl | rfl
    · simp [Takes] at h
    · simp [Takes] at h
  | multiplicative =>
    rcases hc with rfl | rfl
    · simp [Takes] at h
    · simp [Takes] at h
  | power =>
    rcases hc with rfl | rfl
    · simp [Takes] at h
    · simp [Takes] at h

theorem not_mem_of_isBlank {c : Char} (h : Text.isBlank c = true) : c ∉ '+' :: '-' :: separators :=
  Text.forall_blank (p := fun c => c ∉ '+' :: '-' :: separators) (by decide) h

theorem quiet_spaces {cls : Precedence} {before sp : List Char} (h : Text.AllBlank sp) :
    Quiet cls 0 before sp :=
  outside_of_forall fun c hc _ => not_takes_of_not_mem (not_mem_of_isBlank (h c hc))

theorem Word.quiet {cls : Precedence} {before cs : List Char} (h : Word cs) :
    Quiet cls 0 before cs := by
  apply (h.signs before).imp
  intro b c hc hexp
  by_cases hs : c = '+' ∨ c = '-'
  · intro ht
    have hno := (additive_of_takes_sign ht hs).2.2
    rw [hexp hs] at hno
    cases hno
  · apply not_takes_of_not_mem
    intro hin
    rw [List.mem_cons, List.mem_cons] at hin
    rcases hin with rfl | rfl | hin
    · exact hs (Or.inl rfl)
    · exact hs (Or.inr rfl)
    · exact (h.writes c hc).2 hin

/-- In the symbol of an operator ends no operator that is looser. -/
theorem quiet_symbol (op : Operator) {cls : Precedence} (before : List Char)
    (h : cls.level.rank < op.precedence.level.rank) : Quiet cls 0 before op.symbol.toList := by
  apply outside_of_forall
  intro c hc b ht
  rcases op with op | op
  · cases cls with
    | comparison =>
      have hall : ∀ x ∈ op.symbol.toList, ¬ (x = '>' ∨ x = '<' ∨ x = '=') := by
        cases op <;> decide
      exact hall c hc ht
    | additive =>
      have hall : ∀ x ∈ op.symbol.toList, ¬ (x = '+' ∨ x = '-') := by
        revert h
        cases op <;> decide
      exact hall c hc ht.1
    | multiplicative =>
      have hall : ∀ x ∈ op.symbol.toList, ¬ (x = '*' ∨ x = '/' ∨ x = '%') := by
        revert h
        cases op <;> decide
      exact hall c hc ht
    | power =>
      revert h
      cases op <;> decide
  · exact absurd h (Nat.not_lt_zero _)

theorem quiet_name {cls : Precedence} {before name : List Char} (h : IsName name) :
    Quiet cls 0 before name :=
  outside_of_forall fun c hc _ =>
    not_takes_of_not_mem (not_mem_of_isNamePart (h.isNamePart c hc))

theorem not_takes_opening {cls : Precedence} {before : List Char} : ¬ Takes cls before '(' := by
  cases cls <;> simp [Takes]

/-- A call of balanced arguments. -/
theorem quiet_call {cls : Precedence} {before name sp args : List Char} (hname : IsName name)
    (hsp : g.Spaces sp) (hargs : Balanced args) :
    Quiet cls 0 before (name ++ sp ++ '(' :: (args ++ [')'])) := by
  unfold Quiet
  rw [outside_append_of_balanced (hname.balanced.append hsp.balanced),
    outside_append_of_balanced hname.balanced]
  exact ⟨⟨quiet_name hname, quiet_spaces hsp.allBlank⟩, outside_group hargs not_takes_opening⟩

theorem balanced_written {args : List Argument}
    (hspaces : ∀ a ∈ args, g.Spaces a.before ∧ g.Spaces a.after)
    (hargs : ∀ a ∈ args, Renders g .comparison a.text a.tree) :
    ∀ t ∈ args.map Argument.written, Balanced t := by
  intro t ht
  obtain ⟨a, ha, rfl⟩ := List.mem_map.mp ht
  obtain ⟨hbefore, hafter⟩ := hspaces a ha
  exact (hbefore.balanced.append (hargs a ha).balanced).append hafter.balanced

/-- The arguments of a call are balanced together. -/
theorem balanced_writtenAll {args : List Argument}
    (hspaces : ∀ a ∈ args, g.Spaces a.before ∧ g.Spaces a.after)
    (hargs : ∀ a ∈ args, Renders g .comparison a.text a.tree) : Balanced (writtenAll args) :=
  balanced_intercalate (balanced_written hspaces hargs)

theorem quiet_signed {cls : Precedence} {before sp cs : List Char} {c : Char}
    (hbefore : cls = .additive → isSignPosition before = true) (hsp : g.Spaces sp)
    (hc : c = '+' ∨ c = '-') (hclear : ¬ HidesSign (c :: (sp ++ cs)))
    (h : ∀ b, (cls = .additive → beginsWithSign cs = true → isSignPosition b = true) →
      Quiet cls 0 b cs) : Quiet cls 0 before (c :: (sp ++ cs)) := by
  have hweight : weight c = 0 := by
    rcases hc with rfl | rfl <;> rfl
  have hlead : leadsOperand c = true := by
    rcases hc with rfl | rfl <;> rfl
  have hmem : c ∈ ['+', '-', '*', '/', '%', '^'] := by
    rcases hc with rfl | rfl <;> decide
  refine ⟨fun _ ht => ?_, ?_⟩
  · obtain ⟨hcls, hpos, -⟩ := additive_of_takes_sign ht hc
    rw [hbefore hcls] at hpos
    cases hpos
  · rw [hweight, Int.add_zero, outside_append_of_balanced hsp.balanced]
    refine ⟨quiet_spaces hsp.allBlank, h _ fun _ hsign => ?_⟩
    exact isSignPosition_after (spaces_before_sign hclear hmem hsp.allBlank hsign) hlead before

theorem beginsWithSign_append {u : List Char} (h : u ≠ []) (v : List Char) :
    beginsWithSign (u ++ v) = beginsWithSign u := by
  obtain ⟨c, rest, rfl⟩ := List.exists_cons_of_ne_nil h
  by_cases hc : c = '+' ∨ c = '-'
  · rw [List.cons_append, beginsWithSign_cons _ hc, beginsWithSign_cons _ hc]
  · rw [not_or] at hc
    rw [List.cons_append, beginsWithSign_cons_eq_false _ hc.1 hc.2,
      beginsWithSign_cons_eq_false _ hc.1 hc.2]

/-- Outside its brackets, a rendering that hides no sign has no operator that
is looser than its level. -/
theorem Renders.quiet [g.Legible] {lvl : Level} {cs : List Char} {e : Expression}
    (h : Renders g lvl cs e) (hclear : ¬ HidesSign cs) {cls : Precedence}
    (hcls : cls.level.rank < lvl.rank) :
    ∀ before, (cls = .additive → beginsWithSign cs = true → isSignPosition before = true) →
      Quiet cls 0 before cs := by
  induction h with
  | leaf h => exact fun before _ => (Grammar.Legible.word h).quiet
  | group hsp hsp' hr _ =>
    exact fun before _ =>
      outside_group ((hsp.balanced.append hr.balanced).append hsp'.balanced) not_takes_opening
  | emptyCall hname hsp hsp' =>
    exact fun before _ => quiet_call (g.isName_of_name _ hname) hsp hsp'.balanced
  | call hname hsp _ hspaces hargs _ =>
    exact fun before _ =>
      quiet_call (g.isName_of_name _ hname) hsp (balanced_writtenAll hspaces hargs)
  | @negative sp cs e hsp _ ih =>
    intro before hbefore
    have hrest : ¬ HidesSign cs := fun hhides => hclear (hhides.mono ⟨'-' :: sp, [], by simp⟩)
    exact quiet_signed (fun hadd => hbefore hadd rfl) hsp (Or.inr rfl) hclear (ih hrest hcls)
  | @positive sp cs e hsp _ ih =>
    intro before hbefore
    have hrest : ¬ HidesSign cs := fun hhides => hclear (hhides.mono ⟨'+' :: sp, [], by simp⟩)
    exact quiet_signed (fun hadd => hbefore hadd rfl) hsp (Or.inl rfl) hclear (ih hrest hcls)
  | @binary op l r sp sp' a b hsp hsp' hl hr ihl ihr =>
    intro before hbefore
    have hlefts : op.precedence.level.rank ≤ op.precedence.leftLevel.rank := by
      cases op.precedence <;> decide
    have hrights : cls.level.rank < op.precedence.level.rank →
        cls.level.rank < op.precedence.rightLevel.rank := by
      cases cls <;> cases op.precedence <;> decide
    have harithmetic : op.precedence ≠ .comparison := by
      intro hop
      rw [hop] at hcls
      exact absurd hcls (Nat.not_lt_zero _)
    have hleft : ¬ HidesSign l := fun hhides => hclear (hhides.mono ⟨[], _, by simp; rfl⟩)
    have hright : ¬ HidesSign r :=
      fun hhides => hclear (hhides.mono ⟨l ++ sp ++ op.symbol.toList ++ sp', [], by simp⟩)
    have hfront := (hl.balanced.append hsp.balanced).append (balanced_symbol op)
    unfold Quiet
    rw [outside_append_of_balanced hfront,
      outside_append_of_balanced (hl.balanced.append hsp.balanced),
      outside_append_of_balanced hl.balanced, outside_append_of_balanced hsp'.balanced]
    refine ⟨⟨⟨ihl hleft (Nat.lt_of_lt_of_le hcls hlefts) before fun hadd hsign => ?_,
      quiet_spaces hsp.allBlank⟩, quiet_symbol op _ hcls⟩, quiet_spaces hsp'.allBlank, ?_⟩
    · refine hbefore hadd ?_
      rw [List.append_assoc, List.append_assoc, beginsWithSign_append hl.operand.ne_nil, hsign]
    · refine ihr hright (hrights hcls) _ fun _ hsign => ?_
      have hspaces := spaces_after_symbol harithmetic hclear hsp'.allBlank hsign
      have hpos := isSignPosition_after_symbol op hspaces (l ++ sp) before
      rw [List.reverse_append, List.append_assoc] at hpos
      exact hpos
  | loosen ht _ ih => exact ih hclear (Nat.lt_of_lt_of_le hcls ht)

/-! ## Commas -/

theorem noOuterComma_append {u v : List Char} (hb : Balanced u) (hu : NoOuterComma u)
    (hv : NoOuterComma v) : NoOuterComma (u ++ v) := by
  intro before
  rw [outside_append_of_balanced hb]
  exact ⟨hu before, hv _⟩

theorem noOuterComma_of_not_mem {cs : List Char} (h : ',' ∉ cs) : NoOuterComma cs := by
  intro before
  apply outside_of_forall
  intro c hc _
  rintro rfl
  exact h hc

theorem noOuterComma_group {cs : List Char} (h : Balanced cs) :
    NoOuterComma ('(' :: (cs ++ [')'])) := fun _ => outside_group h (by decide)

theorem noOuterComma_spaces {sp : List Char} (h : g.Spaces sp) : NoOuterComma sp := by
  apply noOuterComma_of_not_mem
  intro hc
  exact absurd (h.allBlank ',' hc) (by decide)

theorem noOuterComma_name {name : List Char} (h : IsName name) : NoOuterComma name := by
  apply noOuterComma_of_not_mem
  intro hc
  exact absurd (h.isNamePart ',' hc) (by decide)

theorem noOuterComma_symbol (op : Operator) : NoOuterComma op.symbol.toList := by
  apply noOuterComma_of_not_mem
  rcases op with op | op
  · cases op <;> decide
  · cases op <;> decide

/-- The commas of a rendering stand in brackets. -/
theorem Renders.noOuterComma [g.Legible] {lvl : Level} {cs : List Char} {e : Expression}
    (h : Renders g lvl cs e) : NoOuterComma cs := by
  induction h with
  | leaf h =>
    apply noOuterComma_of_not_mem
    intro hc
    exact ((Grammar.Legible.word h).writes ',' hc).2 (by decide)
  | group hsp hsp' hr _ =>
    exact noOuterComma_group ((hsp.balanced.append hr.balanced).append hsp'.balanced)
  | emptyCall hname hsp hsp' =>
    have hname := g.isName_of_name _ hname
    exact noOuterComma_append (hname.balanced.append hsp.balanced)
      (noOuterComma_append hname.balanced (noOuterComma_name hname) (noOuterComma_spaces hsp))
      (noOuterComma_group hsp'.balanced)
  | call hname hsp _ hspaces hargs _ =>
    have hname := g.isName_of_name _ hname
    exact noOuterComma_append (hname.balanced.append hsp.balanced)
      (noOuterComma_append hname.balanced (noOuterComma_name hname) (noOuterComma_spaces hsp))
      (noOuterComma_group (balanced_writtenAll hspaces hargs))
  | negative hsp _ ih =>
    exact noOuterComma_append (u := ['-']) (balanced_of_noBrackets (by decide))
      (noOuterComma_of_not_mem (by decide))
      (noOuterComma_append hsp.balanced (noOuterComma_spaces hsp) ih)
  | positive hsp _ ih =>
    exact noOuterComma_append (u := ['+']) (balanced_of_noBrackets (by decide))
      (noOuterComma_of_not_mem (by decide))
      (noOuterComma_append hsp.balanced (noOuterComma_spaces hsp) ih)
  | binary op hsp hsp' hl _ ihl ihr =>
    exact noOuterComma_append ((hl.balanced.append hsp.balanced).append (balanced_symbol op))
      (noOuterComma_append (hl.balanced.append hsp.balanced)
        (noOuterComma_append hl.balanced ihl (noOuterComma_spaces hsp)) (noOuterComma_symbol op))
      (noOuterComma_append hsp'.balanced (noOuterComma_spaces hsp') ihr)
  | loosen _ _ ih => exact ih

end Worksheet.Expression
