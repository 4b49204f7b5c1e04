-- Where the scans cut. The place of a cut is a character outside brackets at
-- which the text is cut. The scan from the right finds the last place, the
-- scan from the left the first. A place in an operand is one in the whole
-- text, so an operand has no operator that is looser, and on one side none
-- of the same class.
import Worksheet.Proofs.Expression.Cut
import Worksheet.Proofs.Expression.Grammar

namespace Worksheet.Expression

open Text (trim)

/-! ## The place of a cut -/

/-- The text is cut at the character between the two parts. -/
structure Place (cls : Precedence) (cs pre : List Char) (c : Char) (post : List Char)
    (s : Split) : Prop where
  text : cs = pre ++ c :: post
  plain : weight c = 0
  cut : cutHere? cls pre.reverse c post = some s

/-- A place of a part is one of the whole. -/
theorem Place.append {cls : Precedence} {cs pre post : List Char} {c : Char} {s : Split}
    (h : Place cls cs pre c post s) (front tail : List Char)
    (hfront : ClearOfNumbers front.reverse) :
    ∃ t, Place cls (front ++ cs ++ tail) (front ++ pre) c (post ++ tail) t := by
  obtain ⟨t, ht⟩ := cutHere?_append tail hfront h.cut
  refine ⟨t, ?_, h.plain, ?_⟩
  · rw [h.text]
    simp
  · rw [List.reverse_append]
    exact ht

/-! ## The scan from the right -/

/-- Where the scan finds nothing there is no place of a cut. -/
theorem cutHere?_of_lastSplit?_eq_none {cls : Precedence} {u before after : List Char} {c : Char}
    {d : Int} (h : lastSplit? cls (u ++ c :: before) after d = none) (hc : weight c = 0)
    (hd : net u = d) : cutHere? cls before c (u.reverse ++ after) = none := by
  induction u generalizing after d with
  | nil =>
    rw [List.nil_append, lastSplit?_step, Option.or_eq_none_iff, if_pos ⟨hc, hd.symm⟩] at h
    exact h.1
  | cons x u ih =>
    rw [List.cons_append, lastSplit?_step, Option.or_eq_none_iff] at h
    have hrest := ih h.2 (by rw [net_cons] at hd; omega)
    simpa using hrest

/-- The scan finds a place, and none that is nearer to the end. -/
theorem exists_of_lastSplit? {cls : Precedence} {back after : List Char} {d : Int} {s : Split}
    (h : lastSplit? cls back after d = some s) :
    ∃ u c before, back = u ++ c :: before ∧ weight c = 0 ∧ net u = d ∧
      cutHere? cls before c (u.reverse ++ after) = some s ∧
      ∀ u' c' before', back = u' ++ c' :: before' → weight c' = 0 → net u' = d →
        u'.length < u.length → cutHere? cls before' c' (u'.reverse ++ after) = none := by
  induction back generalizing after d with
  | nil => cases h
  | cons x back ih =>
    rw [lastSplit?_step, Option.or_eq_some_iff] at h
    rcases h with h | ⟨hnone, h⟩
    · split at h
      · rename_i hx
        exact ⟨[], x, back, rfl, hx.1, hx.2.symm, h, by simp⟩
      · cases h
    · obtain ⟨u, c, before, rfl, hc, hd, hcut, hnearer⟩ := ih h
      refine ⟨x :: u, c, before, rfl, hc, by rw [net_cons]; omega, by simpa using hcut, ?_⟩
      intro u' c' before' he hc' hd' hlen
      cases u' with
      | nil =>
        rw [List.nil_append, List.cons.injEq] at he
        obtain ⟨rfl, rfl⟩ := he
        rw [if_pos ⟨hc', hd'.symm⟩] at hnone
        exact hnone
      | cons y u' =>
        rw [List.cons_append, List.cons.injEq] at he
        obtain ⟨rfl, he⟩ := he
        have hrest := hnearer u' c' before' he hc' (by rw [net_cons] at hd'; omega)
          (by simpa using hlen)
        simpa using hrest

theorem net_reverse (u : List Char) : net u.reverse = net u := by
  induction u with
  | nil => rfl
  | cons c u ih =>
    rw [List.reverse_cons, net_append, ih, net_cons, net_cons, net_nil]
    omega

/-- A text that is not cut from the right has no place of a cut. -/
theorem Place.lastSplit?_ne_none {cls : Precedence} {cs pre post : List Char} {c : Char}
    {s : Split} (h : Place cls cs pre c post s) (hpost : net post = 0) :
    lastSplit? cls cs.reverse [] 0 ≠ none := by
  intro hnone
  have hshape : cs.reverse = post.reverse ++ c :: pre.reverse := by
    rw [h.text]
    simp
  rw [hshape] at hnone
  have hcut := cutHere?_of_lastSplit?_eq_none hnone h.plain (by rw [net_reverse, hpost])
  rw [List.reverse_reverse, List.append_nil, h.cut] at hcut
  cases hcut

/-- A cut from the right is at the last place. -/
theorem exists_place_of_lastSplit? {cls : Precedence} {cs : List Char} {s : Split}
    (h : lastSplit? cls cs.reverse [] 0 = some s) :
    ∃ pre c post, Place cls cs pre c post s ∧ net post = 0 ∧
      ∀ {pre' c' post' t}, Place cls cs pre' c' post' t → net post' = 0 →
        post.length ≤ post'.length := by
  obtain ⟨u, c, before, he, hc, hd, hcut, hnearer⟩ := exists_of_lastSplit? h
  rw [List.append_nil] at hcut
  refine ⟨before.reverse, c, u.reverse, ⟨?_, hc, by rw [List.reverse_reverse]; exact hcut⟩,
    by rw [net_reverse, hd], ?_⟩
  · rw [← List.reverse_reverse cs, he]
    simp
  · intro pre' c' post' t hplace hpost
    by_contra hlt
    rw [Nat.not_le, List.length_reverse] at hlt
    have hshape : cs.reverse = post'.reverse ++ c' :: pre'.reverse := by
      rw [hplace.text]
      simp
    have hnone := hnearer _ _ _ hshape hplace.plain (by rw [net_reverse, hpost])
      (by rw [List.length_reverse]; exact hlt)
    rw [List.reverse_reverse, List.append_nil, hplace.cut] at hnone
    cases hnone

/-! ## The scan from the left -/

/-- A text without a sign in front has none after trimming, nor has any
beginning of it. -/
theorem beginsWithSign_trim_eq_false {cs pre post : List Char} (hbare : Text.StartsBare cs)
    (hsign : beginsWithSign cs = false) (he : cs = pre ++ post) :
    beginsWithSign (trim pre) = false := by
  cases hb : beginsWithSign (trim pre) with
  | false => rfl
  | true =>
    obtain ⟨c, rest, hc, hs⟩ := exists_cons_of_beginsWithSign hb
    obtain ⟨sp, sp', hsp, -, hpre⟩ := Text.exists_trim pre
    have hshape : cs = sp ++ (trim pre ++ sp' ++ post) := by
      rw [he]
      nth_rewrite 1 [hpre]
      simp
    obtain rfl : sp = [] := (hshape ▸ hbare : Text.StartsBare _).eq_nil hsp
    rw [hshape, hc] at hsign
    rw [← hsign]
    exact (beginsWithSign_cons _ hs).symm

/-- No beginning of the text, with what stands before it, has a sign in
front. -/
def Unsigned (before after : List Char) : Prop :=
  ∀ u v, after = u ++ v → beginsWithSign (trim (before.reverse ++ u)) = false

theorem Unsigned.here {before after : List Char} (h : Unsigned before after) :
    beginsWithSign (trim before.reverse) = false := by
  simpa using h [] after rfl

theorem Unsigned.next {before after : List Char} {c : Char} (h : Unsigned before (c :: after)) :
    Unsigned (c :: before) after := by
  intro u v he
  have hu := h (c :: u) v (by rw [he]; rfl)
  simpa using hu

theorem unsigned_of_startsBare {cs : List Char} (hbare : Text.StartsBare cs)
    (hsign : beginsWithSign cs = false) : Unsigned [] cs :=
  fun _ _ he => beginsWithSign_trim_eq_false hbare hsign he

/-- The scan finds a place, and none that is nearer to the start. -/
theorem exists_of_firstPower? {before after : List Char} {d : Int} {s : Split}
    (hsign : Unsigned before after) (h : firstPower? before after d = some s) :
    ∃ u c post, after = u ++ c :: post ∧ weight c = 0 ∧ d + net u = 0 ∧
      cutHere? .power (u.reverse ++ before) c post = some s ∧
      ∀ u' c' post', after = u' ++ c' :: post' → weight c' = 0 → d + net u' = 0 →
        u'.length < u.length → cutHere? .power (u'.reverse ++ before) c' post' = none := by
  induction after generalizing before d with
  | nil => cases h
  | cons x after ih =>
    rw [firstPower?_step _ _ _ hsign.here, Option.or_eq_some_iff] at h
    rcases h with h | ⟨hnone, h⟩
    · split at h
      · rename_i hx
        exact ⟨[], x, after, rfl, hx.1, by rw [net_nil, hx.2]; rfl, h, by simp⟩
      · cases h
    · obtain ⟨u, c, post, rfl, hc, hd, hcut, hnearer⟩ := ih hsign.next h
      refine ⟨x :: u, c, post, rfl, hc, by rw [net_cons]; omega, by simpa using hcut, ?_⟩
      intro u' c' post' he hc' hd' hlen
      cases u' with
      | nil =>
        rw [List.nil_append, List.cons.injEq] at he
        obtain ⟨rfl, rfl⟩ := he
        rw [net_nil, Int.add_zero] at hd'
        rw [if_pos ⟨hc', hd'⟩] at hnone
        exact hnone
      | cons y u' =>
        rw [List.cons_append, List.cons.injEq] at he
        obtain ⟨rfl, he⟩ := he
        have hrest := hnearer u' c' post' he hc' (by rw [net_cons] at hd'; omega)
          (by simpa using hlen)
        simpa using hrest

/-- A cut from the left is at the first place. -/
theorem exists_place_of_firstPower? {cs : List Char} {s : Split} (hbare : Text.StartsBare cs)
    (hsign : beginsWithSign cs = false) (h : firstPower? [] cs 0 = some s) :
    ∃ pre c post, Place .power cs pre c post s ∧ net pre = 0 ∧
      ∀ {pre' c' post' t}, Place .power cs pre' c' post' t → net pre' = 0 →
        pre.length ≤ pre'.length := by
  obtain ⟨u, c, post, he, hc, hd, hcut, hnearer⟩ :=
    exists_of_firstPower? (unsigned_of_startsBare hbare hsign) h
  rw [List.append_nil] at hcut
  refine ⟨u, c, post, ⟨he, hc, hcut⟩, by omega, ?_⟩
  intro pre' c' post' t hplace hpre
  by_contra hlt
  have hnone := hnearer _ _ _ hplace.text hplace.plain (by omega) (by omega)
  rw [List.append_nil, hplace.cut] at hnone
  cases hnone

/-! ## The operands of a cut -/

theorem clear_of_takes {cls : Precedence} {before rest : List Char} {c : Char}
    (h : Takes cls before c) : ClearOfNumbers (c :: rest) := by
  have hall : ∀ y ∈ ['>', '<', '=', '+', '-', '*', '/', '%', '^'],
      Text.looksLikeDigit y = false ∧ y ≠ '.' := by decide
  intro x hx
  cases hx
  exact hall c (mem_of_takes h)

variable {cls cls' : Precedence} {cs pre post pre' post' : List Char} {c c' : Char} {s t : Split}

theorem Place.takes (h : Place cls cs pre c post s) : Takes cls pre.reverse c :=
  (cutHere?_spec h.cut).2.1

theorem Place.precedence (h : Place cls cs pre c post s) : s.operator.precedence = cls :=
  (cutHere?_spec h.cut).1

/-- Neither operand is empty. -/
theorem Place.ne_nil (h : Place cls cs pre c post s) : s.left ≠ [] ∧ s.right ≠ [] := by
  have hcut := h.cut
  unfold cutHere? at hcut
  rw [Option.bind_eq_some_iff] at hcut
  obtain ⟨b, -, hs⟩ := hcut
  obtain ⟨rfl, hleft, hright⟩ := splitAt?_spec hs
  exact ⟨hleft, hright⟩

theorem Place.trim_left (h : Place cls cs pre c post s) : trim s.left = s.left := by
  obtain ⟨-, -, -, pre₀, hleft, -⟩ := cutHere?_spec h.cut
  rw [hleft, Text.trim_trim]

theorem Place.trim_right (h : Place cls cs pre c post s) : trim s.right = s.right := by
  obtain ⟨-, -, hright, -⟩ := cutHere?_spec h.cut
  rw [hright, Text.trim_trim]

theorem Place.startsBare_left (h : Place cls cs pre c post s) : Text.StartsBare s.left := by
  rw [← h.trim_left]
  exact Text.startsBare_trim s.left

theorem Place.startsBare_right (h : Place cls cs pre c post s) : Text.StartsBare s.right := by
  rw [← h.trim_right]
  exact Text.startsBare_trim s.right

/-- A trimmed text is its left operand, the operator and its right operand,
with blanks around the operator. -/
structure Parts (s : Split) (sp sp' pre : List Char) (c : Char) (post : List Char) : Prop where
  blank : Text.AllBlank sp
  blank' : Text.AllBlank sp'
  front : pre ++ [c] = s.left ++ sp ++ s.operator.symbol.toList
  back : post = sp' ++ s.right

theorem Place.exists_parts (h : Place cls cs pre c post s) (hstart : Text.StartsBare cs)
    (hend : Text.EndsBare cs) : ∃ sp sp', Parts s sp sp' pre c post := by
  obtain ⟨-, -, hright, pre₀, hleft, hpre⟩ := cutHere?_spec h.cut
  rw [List.reverse_reverse] at hpre
  obtain ⟨sp, sp', hsp, hsp', he⟩ := Text.exists_trim pre₀
  obtain ⟨tp, tp', htp, htp', he'⟩ := Text.exists_trim post
  rw [← hleft] at he
  rw [← hright] at he'
  have hcs : cs = sp ++ (s.left ++ sp' ++ s.operator.symbol.toList ++ post) := by
    have hfront : cs = pre ++ [c] ++ post := by
      rw [h.text]
      simp
    rw [hfront, hpre, he]
    simp
  have hback : cs = pre ++ c :: (tp ++ s.right) ++ tp' := by
    rw [h.text, he']
    simp
  obtain rfl : sp = [] := (hcs ▸ hstart : Text.StartsBare _).eq_nil hsp
  obtain rfl : tp' = [] := (hback ▸ hend : Text.EndsBare _).eq_nil htp'
  exact ⟨sp', tp, hsp', htp, by rw [hpre, he, List.nil_append], by rw [he', List.append_nil]⟩

theorem Parts.text {sp sp' : List Char} (h : Parts s sp sp' pre c post) :
    pre ++ c :: post = s.left ++ sp ++ s.operator.symbol.toList ++ (sp' ++ s.right) := by
  rw [← h.front, ← h.back]
  simp

/-- A place in the right operand is one in the whole, with the same text after it. -/
theorem Place.of_right (h : Place cls cs pre c post s) {sp sp' : List Char}
    (hp : Parts s sp sp' pre c post) (ht : Place cls' s.right pre' c' post' t) :
    ∃ t', Place cls' cs (pre ++ c :: sp' ++ pre') c' post' t' := by
  have hclear : ClearOfNumbers (pre ++ c :: sp').reverse := by
    rw [List.reverse_append, List.reverse_cons, List.append_assoc]
    exact clear_of_isBlank hp.blank'.reverse (clear_of_takes h.takes)
  obtain ⟨t', ht'⟩ := ht.append (pre ++ c :: sp') [] hclear
  have hcs : cs = pre ++ c :: sp' ++ s.right ++ [] := by
    rw [h.text, hp.back]
    simp
  rw [← hcs, List.append_nil] at ht'
  exact ⟨t', ht'⟩

/-- A place in the left operand is one in the whole, with the same text before it. -/
theorem Place.of_left (h : Place cls cs pre c post s) {sp sp' : List Char}
    (hp : Parts s sp sp' pre c post) (ht : Place cls' s.left pre' c' post' t) :
    ∃ t', Place cls' cs pre' c' (post' ++ (sp ++ s.operator.symbol.toList ++ post)) t' := by
  obtain ⟨t', ht'⟩ := ht.append [] (sp ++ s.operator.symbol.toList ++ post)
    (by simp [ClearOfNumbers])
  have hcs : cs = [] ++ s.left ++ (sp ++ s.operator.symbol.toList ++ post) := by
    rw [h.text, hp.text, ← hp.back]
    simp
  rw [← hcs, List.nil_append] at ht'
  exact ⟨t', ht'⟩

theorem Place.net_of_left {sp sp' : List Char} (hp : Parts s sp sp' pre c post)
    (hpost : net post = 0) (hpost' : net post' = 0) :
    net (post' ++ (sp ++ s.operator.symbol.toList ++ post)) = 0 := by
  simp [hpost, hpost', (balanced_of_allBlank hp.blank).settled,
    (balanced_symbol s.operator).settled]

/-! ## Operators of an operand -/

/-- The right operand has no operator that the whole has not. -/
theorem Place.scan_right (h : Place cls cs pre c post s) {sp sp' : List Char}
    (hp : Parts s sp sp' pre c post) (hnone : lastSplit? cls' cs.reverse [] 0 = none) :
    lastSplit? cls' s.right.reverse [] 0 = none := by
  cases ht : lastSplit? cls' s.right.reverse [] 0 with
  | none => rfl
  | some t =>
    exfalso
    obtain ⟨pre', c', post', hplace, hnet, -⟩ := exists_place_of_lastSplit? ht
    obtain ⟨t', hwhole⟩ := h.of_right hp hplace
    exact hwhole.lastSplit?_ne_none hnet hnone

/-- After the last operator of a class there is none of the class. -/
theorem Place.scan_right_of_last (h : Place cls cs pre c post s) {sp sp' : List Char}
    (hp : Parts s sp sp' pre c post)
    (hlast : ∀ {pre' c' post' t}, Place cls cs pre' c' post' t → net post' = 0 →
      post.length ≤ post'.length) : lastSplit? cls s.right.reverse [] 0 = none := by
  cases ht : lastSplit? cls s.right.reverse [] 0 with
  | none => rfl
  | some t =>
    exfalso
    obtain ⟨pre', c', post', hplace, hnet, -⟩ := exists_place_of_lastSplit? ht
    obtain ⟨t', hwhole⟩ := h.of_right hp hplace
    have hlen := hlast hwhole hnet
    rw [hp.back, hplace.text] at hlen
    simp only [List.length_append, List.length_cons] at hlen
    omega

/-- The left operand has no operator that the whole has not. -/
theorem Place.scan_left (h : Place cls cs pre c post s) {sp sp' : List Char}
    (hp : Parts s sp sp' pre c post) (hpost : net post = 0)
    (hnone : lastSplit? cls' cs.reverse [] 0 = none) :
    lastSplit? cls' s.left.reverse [] 0 = none := by
  cases ht : lastSplit? cls' s.left.reverse [] 0 with
  | none => rfl
  | some t =>
    exfalso
    obtain ⟨pre', c', post', hplace, hnet, -⟩ := exists_place_of_lastSplit? ht
    obtain ⟨t', hwhole⟩ := h.of_left hp hplace
    exact hwhole.lastSplit?_ne_none (Place.net_of_left hp hpost hnet) hnone

/-- Before the first power there is none. -/
theorem Place.power_left_of_first (h : Place .power cs pre c post s) {sp sp' : List Char}
    (hp : Parts s sp sp' pre c post) (hstart : Text.StartsBare s.left)
    (hsign : beginsWithSign s.left = false)
    (hfirst : ∀ {pre' c' post' t}, Place .power cs pre' c' post' t → net pre' = 0 →
      pre.length ≤ pre'.length) : firstPower? [] s.left 0 = none := by
  cases ht : firstPower? [] s.left 0 with
  | none => rfl
  | some t =>
    exfalso
    obtain ⟨pre', c', post', hplace, hnet, -⟩ := exists_place_of_firstPower? hstart hsign ht
    obtain ⟨t', hwhole⟩ := h.of_left hp hplace
    have hlen := hfirst hwhole hnet
    have hfront := congrArg List.length hp.front
    have hsym := List.length_pos_iff.mpr (symbol_ne_nil s.operator)
    rw [hplace.text] at hfront
    simp only [List.length_append, List.length_cons, List.length_nil] at hfront
    omega

end Worksheet.Expression
