-- The two scans, character by character. A scan cuts the text where an
-- operator of its class ends outside brackets with an operand on each side,
-- and goes on everywhere else. Over a text in which no operator of the class
-- can end outside brackets it passes without a cut, from the right as well
-- as from the left.
import Worksheet.Proofs.Expression.Brackets
import Worksheet.Proofs.Text.Trim
import Worksheet.Proofs.Text.Character

namespace Worksheet.Expression

open Text (trim)

/-! ## Places where an operator can end -/

/-- An operator of the class can end at a character with this text before
it, read backwards. -/
def Takes (cls : Precedence) (before : List Char) (c : Char) : Prop :=
  match cls with
  | .comparison => c = '>' ∨ c = '<' ∨ c = '='
  | .additive =>
    (c = '+' ∨ c = '-') ∧ isSignPosition before = false ∧ endsAtExponent before = false
  | .multiplicative => c = '*' ∨ c = '/' ∨ c = '%'
  | .power => c = '^'

/-- An operator ends with a character of operators. -/
theorem mem_of_takes {cls : Precedence} {before : List Char} {c : Char} (h : Takes cls before c) :
    c ∈ ['>', '<', '=', '+', '-', '*', '/', '%', '^'] := by
  cases cls with
  | comparison => rcases h with rfl | rfl | rfl <;> simp
  | additive => rcases h.1 with rfl | rfl <;> simp
  | multiplicative => rcases h with rfl | rfl | rfl <;> simp
  | power => cases h; simp

/-- No operator of the class can end outside all brackets. -/
def Quiet (cls : Precedence) (d : Int) (before cs : List Char) : Prop :=
  Outside (fun b c => ¬ Takes cls b c) d before cs

theorem doubleComparison?_eq_some {a b : Char} {op : Comparison}
    (h : doubleComparison? a b = some op) :
    op.symbol.toList = [a, b] ∧ (b = '>' ∨ b = '<' ∨ b = '=') := by
  unfold doubleComparison? at h
  split at h
  · rename_i hab
    cases h
    rw [hab.1, hab.2]
    decide
  · split at h
    · rename_i hab
      cases h
      rw [hab.1, hab.2]
      decide
    · split at h
      · rename_i hab
        cases h
        rw [hab.1, hab.2]
        decide
      · split at h
        · rename_i hab
          cases h
          rw [hab.1, hab.2]
          decide
        · split at h
          · rename_i hab
            cases h
            rw [hab.1, hab.2]
            decide
          · cases h

theorem singleComparison?_eq_some {before after : List Char} {c : Char} {op : Comparison}
    (h : singleComparison? before c after = some op) :
    op.symbol.toList = [c] ∧ (c = '>' ∨ c = '<' ∨ c = '=') := by
  unfold singleComparison? at h
  split at h
  · rename_i hc
    split at h
    · cases h
    · cases h
    · rcases hc with rfl | rfl
      · cases h
        decide
      · cases h
        decide
  · split at h
    · rename_i hc
      subst hc
      split at h
      · cases h
      · cases h
      · cases h
      · cases h
      · cases h
        decide
    · cases h

/-- A comparison is spelled with the character, or with it and the one before. -/
theorem operatorAt?_comparison_eq_some {before after b : List Char} {c : Char} {op : Operator}
    (h : operatorAt? .comparison before c after = some (op, b)) :
    op.precedence = .comparison ∧ b.reverse ++ op.symbol.toList = before.reverse ++ [c] ∧
      Takes .comparison before c := by
  have hsingle : (singleComparison? before c after).map
      (fun op => (Operator.comparison op, before)) = some (op, b) →
      op.precedence = .comparison ∧ b.reverse ++ op.symbol.toList = before.reverse ++ [c] ∧
        Takes .comparison before c := by
    intro hs
    rw [Option.map_eq_some_iff] at hs
    obtain ⟨o, ho, he⟩ := hs
    cases he
    obtain ⟨hsymbol, hc⟩ := singleComparison?_eq_some ho
    exact ⟨rfl, congrArg _ hsymbol, hc⟩
  rw [operatorAt?.eq_def] at h
  cases before with
  | nil => exact hsingle h
  | cons p rest =>
    dsimp only at h
    split at h
    · rename_i o ho
      cases h
      obtain ⟨hsymbol, hc⟩ := doubleComparison?_eq_some ho
      refine ⟨rfl, ?_, hc⟩
      rw [Operator.symbol, hsymbol]
      simp
    · exact hsingle h

/-- What an operator is spelled with ends at the character, and the rest
stands before it. -/
theorem operatorAt?_eq_some {cls : Precedence} {before after b : List Char} {c : Char}
    {op : Operator} (h : operatorAt? cls before c after = some (op, b)) :
    op.precedence = cls ∧ b.reverse ++ op.symbol.toList = before.reverse ++ [c] ∧
      (isSignPosition b = false → Takes cls before c) := by
  cases cls with
  | comparison =>
    obtain ⟨hprecedence, hsymbol, htakes⟩ := operatorAt?_comparison_eq_some h
    exact ⟨hprecedence, hsymbol, fun _ => htakes⟩
  | additive =>
    simp only [operatorAt?] at h
    split at h
    · cases h
    · rename_i hexp
      rw [Bool.not_eq_true] at hexp
      split at h
      · rename_i hc
        cases h
        exact ⟨rfl, by rw [hc]; rfl, fun hpos => ⟨Or.inl hc, hpos, hexp⟩⟩
      · split at h
        · rename_i hc
          cases h
          exact ⟨rfl, by rw [hc]; rfl, fun hpos => ⟨Or.inr hc, hpos, hexp⟩⟩
        · cases h
  | multiplicative =>
    simp only [operatorAt?] at h
    split at h
    · rename_i hc
      cases h
      exact ⟨rfl, by rw [hc]; rfl, fun _ => Or.inl hc⟩
    · split at h
      · rename_i hc
        cases h
        exact ⟨rfl, by rw [hc]; rfl, fun _ => Or.inr (Or.inl hc)⟩
      · split at h
        · rename_i hc
          cases h
          exact ⟨rfl, by rw [hc]; rfl, fun _ => Or.inr (Or.inr hc)⟩
        · cases h
  | power =>
    simp only [operatorAt?] at h
    split at h
    · rename_i hc
      cases h
      exact ⟨rfl, by rw [hc]; rfl, fun _ => hc⟩
    · cases h

theorem symbol_ne_nil (op : Operator) : op.symbol.toList ≠ [] := by
  rcases op with op | op
  · cases op <;> decide
  · cases op <;> decide

/-- Where there is a binary operator of a class, one can end. -/
theorem binaryAt?_spec {cls : Precedence} {before after b : List Char} {c : Char} {op : Operator}
    (h : binaryAt? cls before c after = some (op, b)) :
    op.precedence = cls ∧ b.reverse ++ op.symbol.toList = before.reverse ++ [c] ∧
      isSignPosition b = false ∧ Takes cls before c := by
  unfold binaryAt? at h
  rw [Option.filter_eq_some_iff] at h
  obtain ⟨hop, hpos⟩ := h
  obtain ⟨hprec, hspell, htakes⟩ := operatorAt?_eq_some hop
  have hsign : isSignPosition b = false := by simpa using hpos
  exact ⟨hprec, hspell, hsign, htakes hsign⟩

theorem binaryAt?_eq_none {cls : Precedence} {before after : List Char} {c : Char}
    (h : ¬ Takes cls before c) : binaryAt? cls before c after = none := by
  cases hb : binaryAt? cls before c after with
  | none => rfl
  | some r => exact absurd (binaryAt?_spec hb).2.2.2 h

/-! ## Cuts at a character -/

/-- The cut at an operator that ends at a character. The text before it is
read backwards. -/
def cutHere? (cls : Precedence) (before : List Char) (c : Char) (after : List Char) :
    Option Split :=
  (binaryAt? cls before c after).bind fun b => splitAt? b.2 b.1 after

theorem splitAt?_spec {before after : List Char} {op : Operator} {s : Split}
    (h : splitAt? before op after = some s) :
    s = ⟨trim before.reverse, op, trim after⟩ ∧ trim before.reverse ≠ [] ∧ trim after ≠ [] := by
  unfold splitAt? at h
  dsimp only at h
  split at h
  · cases h
  · rename_i hne
    rw [Bool.or_eq_true, not_or, List.isEmpty_iff, List.isEmpty_iff] at hne
    cases h
    exact ⟨rfl, hne.1, hne.2⟩

theorem splitAt?_of_ne_nil {before after : List Char} (op : Operator)
    (hl : trim before.reverse ≠ []) (hr : trim after ≠ []) :
    splitAt? before op after = some ⟨trim before.reverse, op, trim after⟩ := by
  unfold splitAt?
  dsimp only
  rw [if_neg]
  rw [Bool.or_eq_true, not_or, List.isEmpty_iff, List.isEmpty_iff]
  exact ⟨hl, hr⟩

/-- What a cut at a character says about the text. -/
theorem cutHere?_spec {cls : Precedence} {before after : List Char} {c : Char} {s : Split}
    (h : cutHere? cls before c after = some s) :
    s.operator.precedence = cls ∧ Takes cls before c ∧ s.right = trim after ∧
      ∃ pre, s.left = trim pre ∧ before.reverse ++ [c] = pre ++ s.operator.symbol.toList := by
  unfold cutHere? at h
  rw [Option.bind_eq_some_iff] at h
  obtain ⟨⟨op, b⟩, hb, hs⟩ := h
  obtain ⟨hprec, hspell, -, htakes⟩ := binaryAt?_spec hb
  obtain ⟨rfl, -, -⟩ := splitAt?_spec hs
  exact ⟨hprec, htakes, rfl, b.reverse, rfl, hspell.symm⟩

/-- At the start of a text there is no left operand. -/
theorem cutHere?_nil (cls : Precedence) (c : Char) (after : List Char) :
    cutHere? cls [] c after = none := by
  cases h : cutHere? cls [] c after with
  | none => rfl
  | some s =>
    exfalso
    unfold cutHere? at h
    rw [Option.bind_eq_some_iff] at h
    obtain ⟨⟨op, b⟩, hb, -⟩ := h
    obtain ⟨-, hspell, hpos, -⟩ := binaryAt?_spec hb
    have hnil : b.reverse = [] := by
      have hlen := congrArg List.length hspell
      have hsym := List.length_pos_iff.mpr (symbol_ne_nil op)
      rw [List.length_append, List.reverse_nil, List.nil_append, List.length_singleton] at hlen
      exact List.eq_nil_of_length_eq_zero (by omega)
    rw [List.reverse_eq_nil_iff.mp hnil] at hpos
    cases hpos

/-- Where no operator of the class can end, the text is not cut. -/
theorem cutHere?_eq_none {cls : Precedence} {before after : List Char} {c : Char}
    (h : ¬ Takes cls before c) : cutHere? cls before c after = none := by
  unfold cutHere?
  rw [binaryAt?_eq_none h]
  rfl

/-! ## One step of a scan -/

/-- The scan from the right cuts at this character, or goes on before it. -/
theorem lastSplit?_step (cls : Precedence) (c : Char) (before after : List Char) (d : Int) :
    lastSplit? cls (c :: before) after d =
      (if weight c = 0 ∧ d = 0 then cutHere? cls before c after else none).or
        (lastSplit? cls before (c :: after) (d - weight c)) := by
  cases before with
  | nil => simp [lastSplit?, cutHere?_nil]
  | cons p before =>
    rw [lastSplit?]
    by_cases hclose : c = ')'
    · subst hclose
      simp
    · rw [if_neg hclose]
      by_cases hopen : c = '('
      · subst hopen
        simp
      · rw [if_neg hopen, weight_eq_zero hopen hclose, Int.sub_zero]
        by_cases hd : d = 0
        · rw [if_neg (fun h => h hd), if_pos ⟨rfl, hd⟩]
          unfold cutHere?
          split
          · rename_i hs
            rw [hs]
            rfl
          · rename_i hs
            rw [hs]
            rfl
        · rw [if_pos hd, if_neg fun h => hd h.2]
          rfl

/-- The scan from the left cuts at this character, or goes on after it. -/
theorem firstPower?_step {before : List Char} (c : Char) (after : List Char) (d : Int)
    (h : beginsWithSign (trim before.reverse) = false) :
    firstPower? before (c :: after) d =
      (if weight c = 0 ∧ d = 0 then cutHere? .power before c after else none).or
        (firstPower? (c :: before) after (d + weight c)) := by
  rw [firstPower?]
  by_cases hopen : c = '('
  · subst hopen
    simp
  · rw [if_neg hopen]
    by_cases hclose : c = ')'
    · subst hclose
      simp [Int.sub_eq_add_neg]
    · rw [if_neg hclose, weight_eq_zero hopen hclose, Int.add_zero]
      by_cases hd : d = 0
      · rw [if_neg (fun h => h hd), if_pos ⟨rfl, hd⟩]
        unfold cutHere?
        cases hb : binaryAt? .power before c after with
        | none => rfl
        | some r =>
          obtain ⟨op, b⟩ := r
          have hbefore : b = before := by
            unfold binaryAt? at hb
            rw [Option.filter_eq_some_iff] at hb
            have hop := hb.1
            simp only [operatorAt?] at hop
            grind
          subst hbefore
          rw [h, Option.bind_some]
          dsimp only
          rw [if_neg (by simp)]
          cases splitAt? b op after with
          | none => rfl
          | some s => rfl
      · rw [if_pos hd, if_neg fun h => hd h.2]
        rfl

/-! ## Scans over quiet texts -/

/-- The scan from the right passes over a quiet text. -/
theorem lastSplit?_append_of_quiet {cls : Precedence} {k : Int} {back u : List Char}
    (after : List Char) (h : Quiet cls k back u) :
    lastSplit? cls (u.reverse ++ back) after (k + net u) = lastSplit? cls back (u ++ after) k := by
  induction u using List.reverseRecOn generalizing after with
  | nil => simp
  | append_singleton u c ih =>
    unfold Quiet at h ih
    rw [outside_append] at h
    obtain ⟨hu, hc, -⟩ := h
    have hnet : k + net (u ++ [c]) = k + net u + weight c := by
      simp [Int.add_assoc]
    have hnone : (if weight c = 0 ∧ k + net u + weight c = 0 then
        cutHere? cls (u.reverse ++ back) c after else none) = none := by
      split
      · rename_i hd
        exact cutHere?_eq_none (hc (by omega))
      · rfl
    have happ : u ++ [c] ++ after = u ++ c :: after := by simp
    rw [hnet, List.reverse_append, List.reverse_singleton, List.singleton_append, List.cons_append,
      lastSplit?_step, hnone, Option.none_or, Int.add_sub_cancel, ih (c :: after) hu, happ]

/-- A text that is quiet for a class is not cut at an operator of it. -/
theorem lastSplit?_eq_none {cls : Precedence} {cs : List Char} (h : Quiet cls 0 [] cs)
    (hnet : net cs = 0) : lastSplit? cls cs.reverse [] 0 = none := by
  have hscan := lastSplit?_append_of_quiet [] h
  rw [hnet, List.append_nil, Int.add_zero] at hscan
  rw [hscan, lastSplit?]

/-- The scan from the left passes over a quiet text. -/
theorem firstPower?_append_of_quiet {k : Int} {before u : List Char} (after : List Char)
    (h : Quiet .power k before u) :
    firstPower? before (u ++ after) k = firstPower? (u.reverse ++ before) after (k + net u) := by
  induction u generalizing k before with
  | nil => simp
  | cons c u ih =>
    obtain ⟨hc, hu⟩ := h
    have hrest := ih hu
    have happ : (c :: u).reverse ++ before = u.reverse ++ c :: before := by simp
    rw [happ, net_cons, ← Int.add_assoc, ← hrest, List.cons_append, firstPower?]
    by_cases hopen : c = '('
    · subst hopen
      rw [if_pos rfl, weight_opening]
    · rw [if_neg hopen]
      by_cases hclose : c = ')'
      · subst hclose
        rw [if_pos rfl, weight_closing]
        congr 1
      · rw [if_neg hclose, weight_eq_zero hopen hclose, Int.add_zero]
        by_cases hd : k = 0
        · have hnone : binaryAt? .power before c (u ++ after) = none :=
            binaryAt?_eq_none (hc hd)
          simp [hd, hnone]
        · rw [if_pos hd]

theorem firstPower?_eq_none {cs : List Char} (h : Quiet .power 0 [] cs) :
    firstPower? [] cs 0 = none := by
  have hscan := firstPower?_append_of_quiet [] h
  rw [List.append_nil] at hscan
  rw [hscan, firstPower?]

theorem exists_cons_of_beginsWithSign {cs : List Char} (h : beginsWithSign cs = true) :
    ∃ c rest, cs = c :: rest ∧ (c = '+' ∨ c = '-') := by
  unfold beginsWithSign at h
  split at h
  · rename_i rest
    exact ⟨'+', rest, rfl, Or.inl rfl⟩
  · rename_i rest
    exact ⟨'-', rest, rfl, Or.inr rfl⟩
  · cases h

theorem beginsWithSign_cons {c : Char} (rest : List Char) (h : c = '+' ∨ c = '-') :
    beginsWithSign (c :: rest) = true := by
  rcases h with rfl | rfl
  · rfl
  · rfl

theorem beginsWithSign_cons_eq_false {c : Char} (rest : List Char) (hplus : c ≠ '+')
    (hminus : c ≠ '-') : beginsWithSign (c :: rest) = false := by
  cases hb : beginsWithSign (c :: rest) with
  | false => rfl
  | true =>
    obtain ⟨x, tail, he, hx⟩ := exists_cons_of_beginsWithSign hb
    cases he
    rcases hx with rfl | rfl
    · exact absurd rfl hplus
    · exact absurd rfl hminus

/-- Trimming keeps a sign in front. -/
theorem beginsWithSign_trim {c : Char} (rest : List Char) (h : c = '+' ∨ c = '-') :
    beginsWithSign (trim (c :: rest)) = true := by
  have hbare : Text.isBlank c = false := by
    rcases h with rfl | rfl
    · decide
    · decide
  have hstart := Text.startsBare_cons rest hbare
  obtain ⟨sp, sp', hsp, hsp', he⟩ := Text.exists_trim (c :: rest)
  rw [List.append_assoc] at he
  obtain rfl : sp = [] := (he ▸ hstart : Text.StartsBare _).eq_nil hsp
  cases ht : trim (c :: rest) with
  | nil =>
    have hblank := (Text.trim_eq_nil_iff (c :: rest)).mp ht c (by simp)
    rw [hbare] at hblank
    cases hblank
  | cons a t =>
    rw [ht, List.nil_append, List.cons_append, List.cons.injEq] at he
    rw [← he.1]
    exact beginsWithSign_cons t h

/-- A sign in front stays in front when more text follows. -/
theorem beginsWithSign_trim_append {u : List Char} (v : List Char)
    (h : beginsWithSign (trim u) = true) : beginsWithSign (trim (u ++ v)) = true := by
  obtain ⟨c, rest, hc, hs⟩ := exists_cons_of_beginsWithSign h
  obtain ⟨sp, sp', hsp, -, he⟩ := Text.exists_trim u
  have hshape : u ++ v = sp ++ c :: (rest ++ sp' ++ v) ++ [] := by
    rw [he, hc]
    simp
  rw [hshape, Text.trim_between hsp Text.allBlank_nil]
  exact beginsWithSign_trim _ hs

/-- Behind a sign in front no power is cut at: the sign belongs to the whole. -/
theorem firstPower?_eq_none_of_signed {before : List Char} (after : List Char) (d : Int)
    (h : beginsWithSign (trim before.reverse) = true) : firstPower? before after d = none := by
  induction after generalizing before d with
  | nil => rw [firstPower?]
  | cons x after ih =>
    have hsign : beginsWithSign (trim (x :: before).reverse) = true := by
      rw [List.reverse_cons]
      exact beginsWithSign_trim_append [x] h
    have hnext : ∀ d, firstPower? (x :: before) after d = none := fun d => ih d hsign
    rw [firstPower?, hnext, hnext, hnext, h]
    split
    · rfl
    · split
      · rfl
      · split
        · rfl
        · split
          · rfl
          · rfl

/-- A text that begins with a sign is not cut at a power. -/
theorem firstPower?_eq_none_of_sign {c : Char} (h : c = '+' ∨ c = '-') (rest : List Char) :
    firstPower? [] (c :: rest) 0 = none := by
  have hplain : c ≠ '(' ∧ c ≠ ')' ∧ c ≠ '^' := by
    rcases h with rfl | rfl
    · decide
    · decide
  have hnone : binaryAt? .power [] c rest = none := binaryAt?_eq_none hplain.2.2
  rw [firstPower?, if_neg hplain.1, if_neg hplain.2.1, if_neg (by simp), hnone]
  exact firstPower?_eq_none_of_signed rest 0 (beginsWithSign_trim [] h)

end Worksheet.Expression
