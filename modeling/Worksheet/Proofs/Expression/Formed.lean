-- Which texts are read without a fault: those that render a tree and hide no
-- sign. Where a sign is hidden the text is cut at it, and what stands before
-- the cut ends with an operator.
import Worksheet.Proofs.Expression.Soundness

namespace Worksheet.Expression

open Text (trim)

/-! ## Hidden signs are operators -/

/-- A sign behind blanks that are not ASCII spaces alone is a place of a cut. -/
theorem exists_place_of_hidden {cs u sp r : List Char} {x : Char} (he : cs = u ++ sp ++ x :: r)
    (hu : trim u ≠ []) (hsp : Text.AllBlank sp) (hother : ∃ b ∈ sp, b ≠ ' ')
    (hx : x = '+' ∨ x = '-') (hr : trim r ≠ []) : ∃ s, Place .additive cs (u ++ sp) x r s := by
  have hpos : isSignPosition (u ++ sp).reverse = false := by
    rw [List.reverse_append]
    refine isSignPosition_of_hidden hsp.reverse ?_ u.reverse
    simpa using hother
  have hexp : endsAtExponent (u ++ sp).reverse = false := by
    rcases List.eq_nil_or_concat sp with rfl | ⟨init, b, rfl⟩
    · simp at hother
    · rw [List.concat_eq_append, ← List.append_assoc, List.reverse_append, List.reverse_singleton,
        List.singleton_append]
      exact endsAtExponent_of_isBlank _ (hsp b (by simp))
  have hop : ∃ op, operatorAt? .additive (u ++ sp).reverse x r = some (op, (u ++ sp).reverse) := by
    unfold operatorAt?
    rw [hexp]
    rcases hx with rfl | rfl
    · exact ⟨.arithmetic .plus, rfl⟩
    · exact ⟨.arithmetic .minus, rfl⟩
  obtain ⟨op, hop⟩ := hop
  have hleft : trim (u ++ sp).reverse.reverse ≠ [] := by
    rw [List.reverse_reverse]
    simpa using trim_append_ne_nil [] sp hu
  refine ⟨⟨trim (u ++ sp).reverse.reverse, op, trim r⟩, he, by rcases hx with rfl | rfl <;> rfl, ?_⟩
  unfold cutHere? binaryAt?
  rw [hop, Option.filter_some, hpos]
  exact splitAt?_of_ne_nil op hleft hr

variable {known : String → Prop} {cs : List Char} {s : Split}

/-- A text is cut at a place, and unless it is cut at a comparison no sum or
difference stands behind it. -/
theorem exists_place_of_split? (hstart : Text.StartsBare cs) (h : split? cs = some s) :
    ∃ cls pre c post, Place cls cs pre c post s ∧ (s.operator.precedence ≠ .comparison →
      ∀ {pre' c' post' t}, Place .additive cs pre' c' post' t → net post' = 0 →
        post.length ≤ post'.length) := by
  have hnone : lastSplit? .additive cs.reverse [] 0 = none →
      ∀ {pre' c' post' t} (n : Nat), Place .additive cs pre' c' post' t → net post' = 0 →
        n ≤ post'.length :=
    fun hscan _ _ _ _ _ hplace hnet => absurd hscan (hplace.lastSplit?_ne_none hnet)
  rcases split?_cases h with ⟨cls, hcls, hsplit, hfree⟩ | ⟨hsplit, hscan⟩
  · obtain ⟨pre, c, post, hplace, -, hlast⟩ := exists_place_of_lastSplit? hsplit
    have hprec := hplace.precedence
    refine ⟨cls, pre, c, post, hplace, fun hop => ?_⟩
    cases cls with
    | comparison => exact absurd hprec hop
    | additive => exact hlast
    | multiplicative => exact hnone (hfree.scan .additive (by decide) (by decide)) _
    | power => exact absurd rfl hcls
  · obtain ⟨pre, c, post, hplace, -, -⟩ :=
      exists_place_of_firstPower? hstart (unsigned_of_firstPower? hsplit) hsplit
    exact ⟨.power, pre, c, post, hplace, fun _ => hnone (hscan .additive (by decide)) _⟩

/-! ## Texts without a fault -/

/-- What follows a sign in front of an operand is not blank. -/
theorem Operand.trim_after_sign {lvl : Level} {x : Char} {r : List Char} (h : Operand lvl (x :: r))
    (hx : x = '+' ∨ x = '-') : Text.trim r ≠ [] := by
  obtain ⟨init, c, he, hbare, hlead⟩ := h.last
  cases init with
  | nil =>
    cases he
    have hsign : leadsOperand x = true := by
      rcases hx with rfl | rfl <;> rfl
    rw [hsign] at hlead
    cases hlead
  | cons y init =>
    rw [List.cons_append, List.cons.injEq] at he
    intro hblank
    rw [Text.trim_eq_nil_iff] at hblank
    rw [hblank c (by rw [he.2]; simp)] at hbare
    cases hbare

theorem Renders.net_after_sign {g : Grammar} {lvl : Level} {x : Char} {r : List Char}
    {e : Expression} (h : Renders g lvl (x :: r) e) (hx : x = '+' ∨ x = '-') : net r = 0 := by
  have hsettled := h.balanced.settled
  rw [net_cons] at hsettled
  rcases hx with rfl | rfl
  · simpa [weight] using hsettled
  · simpa [weight] using hsettled

/-- A sign that an operation hides is one that an operand hides, or it begins
the right operand. -/
theorem HidesSign.binary_cases {op : Operator} {lvl lvl' : Level} {l sp sp' r : List Char}
    (h : HidesSign (l ++ sp ++ op.symbol.toList ++ (sp' ++ r))) (hl : Operand lvl l)
    (hr : Operand lvl' r) (hsp : Text.AllBlank sp) (hsp' : Text.AllBlank sp') :
    HidesSign l ∨ HidesSign r ∨ op.precedence ≠ .comparison ∧ (∃ b ∈ sp', b ≠ ' ') ∧
      ∃ x r', r = x :: r' ∧ (x = '+' ∨ x = '-') := by
  rw [List.append_assoc, List.append_assoc] at h
  rcases h.append_cases with hleft | hrest | ⟨u, y, t, -, -, -, he, -, hy, ht, -⟩
  · exact Or.inl hleft
  · have hsymbol := hrest.of_blanks hsp
    rcases op with op | op
    · have hone : ∃ y, (Operator.arithmetic op).symbol.toList = [y] := by
        cases op <;> exact ⟨_, rfl⟩
      obtain ⟨y, hy⟩ := hone
      rw [hy, List.singleton_append] at hsymbol
      rcases hsymbol.cons_cases hsp' hr.startsBare with hright | ⟨-, hother, hx⟩
      · exact Or.inr (Or.inl hright)
      · refine Or.inr (Or.inr ⟨?_, hother, hx⟩)
        cases op <;> decide
    · have hno : ∀ c ∈ (Operator.comparison op).symbol.toList,
          c ∉ ['+', '-', '*', '/', '%', '^'] := by
        cases op <;> decide
      exact Or.inr (Or.inl ((hsymbol.of_append_right hno).of_blanks hsp'))
  · exfalso
    obtain ⟨init, c, hc, hbare, hlead⟩ := hl.last
    obtain rfl : t = [] := ((show l = (u ++ [y]) ++ t by rw [he]; simp) ▸ hl.endsBare :
      Text.EndsBare _).eq_nil ht
    rw [he] at hc
    obtain ⟨-, hyc⟩ := List.append_inj' hc rfl
    cases hyc
    have hall : ∀ x ∈ ['+', '-', '*', '/', '%', '^'], leadsOperand x = true := by decide
    rw [hall y hy] at hlead
    cases hlead

variable {text : List Char}

/-- A sign that is hidden behind an operator would be cut at instead. -/
theorem clear_of_split? (hs : split? (trim text) = some s) (ha : Formed known (parse s.left))
    (hb : Formed known (parse s.right)) (hleft : ¬ HidesSign (trim s.left))
    (hright : ¬ HidesSign (trim s.right)) : ¬ HidesSign (trim text) := by
  obtain ⟨cls, pre, c, post, hplace, hlast⟩ := exists_place_of_split? (Text.startsBare_trim text) hs
  obtain ⟨sp, sp', hp⟩ := hplace.exists_parts (Text.startsBare_trim text) (Text.endsBare_trim text)
  have hl := renders_of_formed (free_comparison _) ha
  have hr := renders_of_formed (free_comparison _) hb
  rw [hplace.trim_left] at hl hleft
  rw [hplace.trim_right] at hr hright
  intro hhides
  have hshape : trim text = s.left ++ sp ++ s.operator.symbol.toList ++ (sp' ++ s.right) := by
    rw [hplace.text, hp.text]
  rw [hshape] at hhides
  rcases hhides.binary_cases hl.operand hr.operand hp.blank hp.blank' with
    h | h | ⟨hop, hother, x, r, hx, hsign⟩
  · exact hleft h
  · exact hright h
  · rw [hx] at hr hshape
    have hbefore : trim (s.left ++ sp ++ s.operator.symbol.toList) ≠ [] := by
      rw [List.append_assoc]
      refine trim_append_ne_nil [] _ ?_
      rw [hplace.trim_left]
      exact hl.operand.ne_nil
    have hsum : trim text = s.left ++ sp ++ s.operator.symbol.toList ++ sp' ++ x :: r := by
      rw [hshape, List.append_assoc _ sp']
    obtain ⟨t, ht⟩ := exists_place_of_hidden hsum hbefore hp.blank' hother hsign
      (hr.operand.trim_after_sign hsign)
    have hlen := hlast hop ht (hr.net_after_sign hsign)
    rw [hp.back, hx] at hlen
    simp only [List.length_append, List.length_cons] at hlen
    omega

/-- Behind a sign in front of the text there is no other that is hidden. -/
theorem clear_of_sign {x : Char} {rest : List Char} (hx : x = '+' ∨ x = '-')
    (hend : Text.EndsBare (x :: rest)) (hs : split? (x :: rest) = none)
    (h : Formed known (parse rest)) (hrest : ¬ HidesSign (trim rest)) :
    ¬ HidesSign (x :: rest) := by
  obtain ⟨sp, hsp, he⟩ := exists_after_sign hend
  have hr := renders_of_formed (free_comparison _) h
  intro hhides
  rw [he] at hhides
  rcases hhides.cons_cases hsp (Text.startsBare_trim rest) with h | ⟨-, hother, y, r, hy, hsign⟩
  · exact hrest h
  · rw [hy] at hr he
    have hbare : trim [x] ≠ [] := by
      rcases hx with rfl | rfl <;> decide
    have hsum : x :: rest = [x] ++ sp ++ y :: r := by
      rw [he]
      simp
    obtain ⟨t, ht⟩ := exists_place_of_hidden hsum hbare hsp hother hsign
      (hr.operand.trim_after_sign hsign)
    exact ht.lastSplit?_ne_none (hr.net_after_sign hsign)
      (scan_of_split?_eq_none hs .additive (by decide))

theorem HidesSign.of_group (h : HidesSign ('(' :: (cs ++ [')']))) : HidesSign cs := by
  have hgroup : HidesSign (['('] ++ (cs ++ [')'])) := h
  exact (hgroup.of_append_right (by decide)).of_append_left (by decide)

theorem not_hidesSign_nil : ¬ HidesSign [] := by
  rintro ⟨y, sp, x, -, -, -, -, hin⟩
  exact absurd (List.infix_nil.mp hin) (by simp)

/-- A sign that a call hides is one that an argument hides. -/
theorem HidesSign.of_call {name sp args : List Char} (hname : IsName name) (hsp : Text.AllBlank sp)
    (h : HidesSign (name ++ sp ++ '(' :: (args ++ [')']))) :
    ∃ p ∈ arguments args, HidesSign p := by
  have hno : ∀ c ∈ name ++ sp, c ∉ ['+', '-', '*', '/', '%', '^'] := by
    intro c hc
    rcases List.mem_append.mp hc with hc | hc
    · have hnot := not_mem_of_isNamePart (hname.isNamePart c hc)
      have hsub : ∀ x ∈ ['+', '-', '*', '/', '%', '^'], x ∈ '+' :: '-' :: separators := by decide
      exact fun hmem => hnot (hsub c hmem)
    · exact not_arithmetic_of_isBlank (hsp c hc)
  have hargs := (h.of_append_right hno).of_group
  unfold arguments
  split
  · rename_i hblank
    rw [← List.append_nil args] at hargs
    exact absurd (hargs.of_blanks (List.all_eq_true.mp hblank)) not_hidesSign_nil
  · rw [← intercalate_cutArguments 0 args] at hargs
    exact hargs.of_intercalate

/-- A text whose tree is formed hides no sign. -/
theorem clear_of_formed (h : Formed known (parse text)) : ¬ HidesSign (trim text) := by
  induction hn : text.length using Nat.strong_induction_on generalizing text with
  | _ n ih =>
    subst hn
    have hlen := Text.length_trim_le text
    cases hs : split? (trim text) with
    | some s =>
      obtain ⟨hl, hr⟩ := length_of_split? hs
      rw [parse_of_split? hs] at h
      obtain ⟨ha, hb⟩ := h.of_binary
      exact clear_of_split? hs ha hb (ih s.left.length (by omega) ha rfl)
        (ih s.right.length (by omega) hb rfl)
    | none =>
      cases ht : trim text with
      | nil => exact not_hidesSign_nil
      | cons c rest =>
        rw [ht] at hs hlen
        have hend : Text.EndsBare (c :: rest) := ht ▸ Text.endsBare_trim text
        rw [parse_of_uncut ht hs] at h
        by_cases hopen : c = '('
        · rw [if_pos hopen] at h
          cases hgroup : group? (c :: rest) with
          | none =>
            rw [hgroup] at h
            exact absurd h (not_formed_malformed _)
          | some inside =>
            rw [hgroup] at h
            have hshort := length_of_group? hgroup
            intro hhides
            rw [eq_of_group? hgroup] at hhides
            exact ih inside.length (by omega) h rfl ((hidesSign_trim inside).mpr hhides.of_group)
        · rw [if_neg hopen] at h
          cases hcall : callOf? (c :: rest) with
          | some p =>
            obtain ⟨name, args⟩ := p
            rw [hcall] at h
            obtain ⟨hname, sp, hsp, he⟩ := eq_of_callOf? hcall
            intro hhides
            rw [he] at hhides
            obtain ⟨p, hp, hhides⟩ := hhides.of_call hname hsp
            have hshort := length_of_callOf? hcall
            have harg := length_of_mem_arguments p hp
            exact ih p.length (by omega) (h.of_call.2 _ (List.mem_map_of_mem hp)) rfl
              ((hidesSign_trim p).mpr hhides)
          | none =>
            rw [hcall] at h
            dsimp only at h
            have hrest : rest.length < text.length := by
              rw [List.length_cons] at hlen
              omega
            by_cases hminus : c = '-'
            · rw [if_pos hminus] at h
              exact clear_of_sign (Or.inr hminus) hend hs h.of_negative
                (ih rest.length hrest h.of_negative rfl)
            · rw [if_neg hminus] at h
              by_cases hplus : c = '+'
              · rw [if_pos hplus] at h
                exact clear_of_sign (Or.inl hplus) hend hs h.of_positive
                  (ih rest.length hrest h.of_positive rfl)
              · rw [if_neg hplus] at h
                have hself : trim (c :: rest) = c :: rest := by rw [← ht, Text.trim_trim]
                have hsign := beginsWithSign_cons_eq_false rest hplus hminus
                exact (liberalLeaf_of_formed hself hsign h).word.not_hidesSign

/-! ## Renderings -/

theorem Renders.formed {lvl : Level} {e : Expression} (h : Renders (liberalWith known) lvl cs e) :
    Formed known e := by
  induction h with
  | leaf h =>
    cases h with
    | number _ _ _ => exact .number _
    | constant _ => exact .constant _
  | group _ _ _ ih => exact ih
  | emptyCall hname _ _ => exact .call hname.2 (by simp)
  | call hname _ _ _ _ ih =>
    refine .call hname.2 fun e he => ?_
    obtain ⟨a, ha, rfl⟩ := List.mem_map.mp he
    exact ih a ha
  | negative _ _ ih => exact .negative ih
  | positive _ _ ih => exact .positive ih
  | binary op _ _ _ _ iha ihb => exact .binary op iha ihb
  | loosen _ _ ih => exact ih

/-- A text is read as a tree without a fault if it renders the tree and hides
no sign, and only then. -/
theorem parse_eq_iff {e : Expression} (text : List Char) :
    (parse text = e ∧ Formed known e) ↔
      Renders (liberalWith known) .comparison (trim text) e ∧ ¬ HidesSign text := by
  constructor
  · rintro ⟨rfl, h⟩
    exact ⟨renders_of_formed (free_comparison _) h,
      fun hhides => clear_of_formed h ((hidesSign_trim text).mpr hhides)⟩
  · rintro ⟨h, hclear⟩
    have hparse := parse_of_clear_renders h fun hhides => hclear ((hidesSign_trim text).mp hhides)
    exact ⟨(parse_trim text).symm.trans hparse, h.formed⟩

end Worksheet.Expression
