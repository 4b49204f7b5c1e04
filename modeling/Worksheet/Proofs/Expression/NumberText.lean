-- The texts of numbers are words. A text that is read as a number, bare and
-- without a sign in front, has a sign in its exponent only, and ends with a
-- digit, a point or the last letter of a word. Neither the underscores between
-- its digits nor the script of the digits matters for this.
import Worksheet.Proofs.Expression.Literal

namespace Worksheet

namespace Double

open Text (asciiDigit isDecimalDigit)

/-! ## The ends of a number -/

theorem getLast?_joinGroups? {prev : Char} {cs js : List Char}
    (h : joinGroups? prev cs = some js) : js.getLast? = cs.getLast? := by
  fun_induction joinGroups? prev cs generalizing js with
  | case1 =>
    cases h
    rfl
  | case2 prev d cs _ ih =>
    rw [Option.map_eq_some_iff] at h
    obtain ⟨ks, hk, rfl⟩ := h
    simp [List.getLast?_cons, ih hk]
  | case3 => cases h
  | case4 => cases h
  | case5 prev d cs _ _ ih =>
    rw [Option.map_eq_some_iff] at h
    obtain ⟨ks, hk, rfl⟩ := h
    simp [List.getLast?_cons, ih hk]

/-- At the start of a text no digits are joined. -/
theorem head?_joinGroups? {cs js : List Char} (h : joinGroups? ' ' cs = some js) :
    js.head? = cs.head? := by
  rw [joinGroups?.eq_def] at h
  split at h
  · cases h
    rfl
  · rw [show ' '.isDigit = false from rfl, Bool.false_and, if_neg Bool.false_ne_true] at h
    cases h
  · split at h
    · cases h
    · rw [Option.map_eq_some_iff] at h
      obtain ⟨ks, -, rfl⟩ := h
      rfl

/-- An exponent is its mark, perhaps a sign, and digits. -/
theorem exists_parts_of_readExponent? {cs : List Char} {e : Int} (h : readExponent? cs = some e) :
    cs = [] ∨ ∃ mark sign ds, cs = mark :: (sign ++ ds) ∧ (mark = 'e' ∨ mark = 'E') ∧
      (sign = [] ∨ sign = ['+'] ∨ sign = ['-']) ∧ ds ≠ [] ∧ ∀ c ∈ ds, c.isDigit = true := by
  unfold readExponent? at h
  split at h
  · exact Or.inl rfl
  · rename_i c cs
    dsimp only at h
    split at h
    · rename_i hc
      obtain ⟨hmark, hne, hall⟩ := hc
      rw [List.all_eq_true] at hall
      have hsign : ∃ sign, (sign = [] ∨ sign = ['+'] ∨ sign = ['-']) ∧
          cs = sign ++ (takeSign cs).2 := by
        unfold takeSign
        split
        · exact ⟨['-'], Or.inr (Or.inr rfl), rfl⟩
        · exact ⟨['+'], Or.inr (Or.inl rfl), rfl⟩
        · exact ⟨[], Or.inl rfl, rfl⟩
      obtain ⟨sign, hsign, he⟩ := hsign
      exact Or.inr ⟨c, sign, (takeSign cs).2, by rw [← he], hmark, hsign, hne, hall⟩
    · cases h

/-- The last character of a number without a sign: a digit, a point, or the
last letter of a word. -/
def EndsNumber (c : Char) : Prop := c.isDigit = true ∨ c = '.' ∨ c.toLower ∈ ['f', 'y', 'n']

theorem EndsNumber.not_mem {c : Char} (h : EndsNumber c) : c ∉ ['+', '-', 'e', 'E'] := by
  intro hc
  have hall : ∀ x ∈ ['+', '-', 'e', 'E'], x.isDigit = false ∧ x ≠ '.' ∧
      x.toLower ∉ ['f', 'y', 'n'] := by decide
  obtain ⟨hdigit, hpoint, hletter⟩ := hall c hc
  rcases h with h | h | h
  · rw [hdigit] at h
    cases h
  · exact hpoint h
  · exact hletter h

theorem EndsNumber.ne_sign {c : Char} (h : EndsNumber c) : c ≠ '+' ∧ c ≠ '-' := by
  have hno := h.not_mem
  simp only [List.mem_cons, not_or] at hno
  exact ⟨hno.1, hno.2.1⟩

end Double

namespace Expression

open Text (asciiDigit isDecimalDigit)
open Double (EndsNumber)

/-! ## Decimals -/

theorem signs_of_digits {before ds : List Char} (h : ∀ c ∈ ds, c.isDigit = true) :
    SignsInExponents before ds :=
  signsInExponents_of_forall fun c hc => EndsNumber.ne_sign (Or.inl (h c hc))

/-- The sign of an exponent stands behind its mark. -/
theorem signs_of_exponent {before sign ds : List Char} {mark : Char}
    (hmark : mark = 'e' ∨ mark = 'E') (hsign : sign = [] ∨ sign = ['+'] ∨ sign = ['-'])
    (hdigits : ∀ c ∈ ds, c.isDigit = true) (hends : endsAtExponent (mark :: before) = true) :
    SignsInExponents before (mark :: (sign ++ ds)) := by
  have hplain : weight mark = 0 ∧ mark ≠ '+' ∧ mark ≠ '-' := by
    rcases hmark with rfl | rfl <;> decide
  refine ⟨fun _ hs => absurd hs (by simp [hplain.2]), ?_⟩
  rw [hplain.1, Int.add_zero]
  rcases hsign with rfl | rfl | rfl
  · exact signs_of_digits hdigits
  · exact ⟨fun _ _ => hends, signs_of_digits hdigits⟩
  · exact ⟨fun _ _ => hends, signs_of_digits hdigits⟩

/-- A decimal has a sign in its exponent only, and ends like a number. -/
theorem signs_of_readDecimal? {cs : List Char} {d : Decimal} (h : Double.readDecimal? cs = some d)
    (before : List Char) :
    SignsInExponents before cs ∧ ∃ c ∈ cs.getLast?, EndsNumber c := by
  obtain ⟨whole, point, fraction, tail, e, rfl, hpoint, hdigits, hne, he⟩ :=
    Double.exists_parts_of_readDecimal? h
  have hfront : ∀ c ∈ whole ++ point ++ fraction, c.isDigit = true ∨ c = '.' := by
    intro c hc
    simp only [List.mem_append] at hc hdigits
    rcases hc with (hc | hc) | hc
    · exact Or.inl (hdigits c (Or.inl hc))
    · rcases hpoint with rfl | rfl
      · cases hc
      · exact Or.inr (List.mem_singleton.mp hc)
    · exact Or.inl (hdigits c (Or.inr hc))
  have hshape : whole ++ (point ++ (fraction ++ tail)) = whole ++ point ++ fraction ++ tail := by
    simp
  obtain ⟨init, x, hx⟩ : ∃ init x, whole ++ point ++ fraction = init ++ [x] := by
    rcases List.eq_nil_or_concat (whole ++ point ++ fraction) with hnil | ⟨init, x, hx⟩
    · simp only [List.append_eq_nil_iff] at hnil
      exact absurd (by rw [hnil.1.1, hnil.2]; rfl) hne
    · exact ⟨init, x, by rw [hx, List.concat_eq_append]⟩
  rw [hx] at hshape hfront
  rw [hshape]
  have hsigns : SignsInExponents before (init ++ [x]) := signsInExponents_of_forall fun c hc =>
    EndsNumber.ne_sign ((hfront c hc).imp_right Or.inl)
  have hbrackets : Balanced (init ++ [x]) := balanced_of_noBrackets fun c hc =>
    weight_eq_zero_of (p := fun c => c.isDigit = true ∨ c = '.') (hfront c hc) (by decide)
      (by decide)
  rcases Double.exists_parts_of_readExponent? he with
    rfl | ⟨mark, sign, ds, rfl, hmark, hsign, hds, hexp⟩
  · rw [List.append_nil]
    exact ⟨hsigns, x, List.getLast?_concat, (hfront x (by simp)).imp_right Or.inl⟩
  · constructor
    · unfold SignsInExponents
      rw [outside_append_of_balanced hbrackets]
      refine ⟨hsigns, signs_of_exponent hmark hsign hexp ?_⟩
      rw [List.reverse_append, List.reverse_singleton, List.singleton_append, List.cons_append]
      unfold endsAtExponent
      dsimp only
      rcases hfront x (by simp) with hdigit | rfl
      · rw [Text.looksLikeDigit_of_isDecimalDigit (Text.isDecimalDigit_of_isDigit hdigit)]
        rcases hmark with rfl | rfl <;> rfl
      · rcases hmark with rfl | rfl <;> rfl
    · obtain ⟨front, y, hy⟩ := (List.eq_nil_or_concat ds).resolve_left hds
      rw [List.concat_eq_append] at hy
      have hend : init ++ [x] ++ mark :: (sign ++ ds) =
          init ++ [x] ++ mark :: (sign ++ front) ++ [y] := by
        rw [hy]
        simp
      refine ⟨y, ?_, Or.inl (hexp y (by rw [hy]; simp))⟩
      rw [hend]
      exact List.getLast?_concat

/-- A number without a sign in front has a sign in its exponent only, and
ends like a number. -/
theorem signs_of_readUnsigned? {cs : List Char} {negative : Bool} {x : Double}
    (h : Double.readUnsigned? negative cs = some x) (before : List Char) :
    SignsInExponents before cs ∧ ∃ c ∈ cs.getLast?, EndsNumber c := by
  have hword : ∀ word ∈ [['i', 'n', 'f'], ['i', 'n', 'f', 'i', 'n', 'i', 't', 'y'],
      ['n', 'a', 'n']], cs.map Char.toLower = word →
      SignsInExponents before cs ∧ ∃ c ∈ cs.getLast?, EndsNumber c := by
    intro word hword he
    have hw : ∀ w ∈ [['i', 'n', 'f'], ['i', 'n', 'f', 'i', 'n', 'i', 't', 'y'], ['n', 'a', 'n']],
        '+' ∉ w ∧ '-' ∉ w ∧ ∃ c ∈ w.getLast?, c ∈ ['f', 'y', 'n'] := by
      simp only [List.forall_mem_cons]
      exact ⟨⟨by decide, by decide, 'f', rfl, by decide⟩,
        ⟨by decide, by decide, 'y', rfl, by decide⟩, ⟨by decide, by decide, 'n', rfl, by decide⟩,
        nofun⟩
    obtain ⟨hplus, hminus, y, hy, hlast⟩ := hw word hword
    subst he
    constructor
    · refine signsInExponents_of_forall fun c hc => ⟨?_, ?_⟩
      · rintro rfl
        exact hplus (List.mem_map_of_mem hc)
      · rintro rfl
        exact hminus (List.mem_map_of_mem hc)
    · rw [List.getLast?_map, Option.mem_def, Option.map_eq_some_iff] at hy
      obtain ⟨c, hc, rfl⟩ := hy
      exact ⟨c, hc, Or.inr (Or.inr hlast)⟩
  unfold Double.readUnsigned? at h
  dsimp only at h
  split at h
  · rename_i hinf
    rcases hinf with hinf | hinf
    · exact hword _ (by simp) hinf
    · exact hword _ (by simp) hinf
  · split at h
    · rename_i hnan
      exact hword _ (by simp) hnan
    · rw [Option.map_eq_some_iff] at h
      obtain ⟨d, hd, -⟩ := h
      exact signs_of_readDecimal? hd before

/-! ## Underscores and scripts -/

theorem endsAtExponent_congr {b b' : List Char} (h : b'.head? = b.head?) (e : Char) :
    endsAtExponent (e :: b') = endsAtExponent (e :: b) := by
  cases b with
  | nil =>
    obtain rfl : b' = [] := by simpa using h
    rfl
  | cons x b =>
    cases b' with
    | nil => cases h
    | cons y b' =>
      cases h
      rfl

/-- A sign that stands in an exponent does so before the underscores are taken
out too: what stands right before it is the same. -/
theorem outside_of_joinGroups? {prev : Char} {cs js : List Char}
    (h : Double.joinGroups? prev cs = some js) {d : Int} {b b' : List Char}
    (hends : endsAtExponent b' = true → endsAtExponent b = true) (hhead : b'.head? = b.head?)
    (hsigns : Outside (fun b c => c = '+' ∨ c = '-' → endsAtExponent b = true) d b' js) :
    Outside (fun b c => c = '+' ∨ c = '-' → endsAtExponent b = true) d b cs := by
  fun_induction Double.joinGroups? prev cs generalizing js d b b' with
  | case1 => trivial
  | case2 prev x cs hx ih =>
    rw [Option.map_eq_some_iff] at h
    obtain ⟨ks, hk, rfl⟩ := h
    have hdigit : EndsNumber x := Or.inl (Bool.and_eq_true_iff.mp hx).2
    obtain ⟨-, hrest⟩ := hsigns
    refine ⟨fun _ hs => absurd hs (by decide), fun _ hs => ?_, ?_⟩
    · exact absurd hs (by simp [hdigit.ne_sign])
    · have hline : weight '_' = 0 := rfl
      rw [hline, Int.add_zero]
      have hhead' : (x :: b').head? = (x :: '_' :: b).head? := rfl
      refine ih hk (fun hexp => ?_) hhead' hrest
      have hno := hdigit.not_mem
      simp only [List.mem_cons, not_or] at hno
      rw [endsAtExponent_cons hno.2.2.1 hno.2.2.2.1] at hexp
      cases hexp
  | case3 => cases h
  | case4 => cases h
  | case5 prev x cs _ _ ih =>
    rw [Option.map_eq_some_iff] at h
    obtain ⟨ks, hk, rfl⟩ := h
    obtain ⟨hx, hrest⟩ := hsigns
    have hhead' : (x :: b').head? = (x :: b).head? := rfl
    refine ⟨fun hd hs => hends (hx hd hs), ih hk (fun hexp => ?_) hhead' hrest⟩
    rwa [endsAtExponent_congr hhead] at hexp

theorem eq_of_asciiDigit {c x : Char} (h : asciiDigit c = x) (hx : x.isDigit = false) : c = x := by
  cases hdec : isDecimalDigit c with
  | true =>
    have hdigit := Text.isDigit_asciiDigit hdec
    rw [h, hx] at hdigit
    cases hdigit
  | false => rw [← h, Text.asciiDigit_of_not_decimal hdec]

theorem weight_asciiDigit (c : Char) : weight (asciiDigit c) = weight c := by
  cases hdec : isDecimalDigit c with
  | false => rw [Text.asciiDigit_of_not_decimal hdec]
  | true =>
    have hdigit := Text.isDigit_asciiDigit hdec
    rw [weight_eq_zero_of (p := fun c => c.isDigit = true) hdigit (by decide) (by decide),
      weight_eq_zero_of (p := fun c => isDecimalDigit c = true) hdec (by decide) (by decide)]

theorem endsAtExponent_of_map {b : List Char} (h : endsAtExponent (b.map asciiDigit) = true) :
    endsAtExponent b = true := by
  match b with
  | [] => cases h
  | [_] => cases h
  | e :: d :: b =>
    simp only [List.map_cons, endsAtExponent, Bool.and_eq_true, Bool.or_eq_true, beq_iff_eq] at h ⊢
    refine ⟨h.1.imp (fun he => eq_of_asciiDigit he rfl) fun he => eq_of_asciiDigit he rfl,
      h.2.imp (fun hd => ?_) fun hd => eq_of_asciiDigit hd rfl⟩
    cases hdec : isDecimalDigit d with
    | true => exact Text.looksLikeDigit_of_isDecimalDigit hdec
    | false => rwa [Text.asciiDigit_of_not_decimal hdec] at hd

/-- The script of the digits does not matter for the place of a sign. -/
theorem outside_of_map {cs : List Char} {d : Int} {b : List Char}
    (hsigns : Outside (fun b c => c = '+' ∨ c = '-' → endsAtExponent b = true) d
      (b.map asciiDigit) (cs.map asciiDigit)) :
    Outside (fun b c => c = '+' ∨ c = '-' → endsAtExponent b = true) d b cs := by
  induction cs generalizing d b with
  | nil => trivial
  | cons c cs ih =>
    obtain ⟨hc, hrest⟩ := hsigns
    rw [weight_asciiDigit] at hrest
    refine ⟨fun hd hs => ?_, ih hrest⟩
    have hself : ∀ x ∈ ['+', '-'], asciiDigit x = x := by decide
    refine endsAtExponent_of_map (hc hd ?_)
    rcases hs with rfl | rfl
    · exact Or.inl (hself _ (by simp))
    · exact Or.inr (hself _ (by simp))

/-! ## Numbers -/

theorem takeSign_of_unsigned {cs : List Char} (h : beginsWithSign cs = false) :
    Double.takeSign cs = (false, cs) := by
  unfold Double.takeSign
  split
  · cases h
  · cases h
  · rfl

/-- A bare text that is read as a number is a word, unless a sign stands in
front. -/
theorem word_of_read? {cs : List Char} {x : Double} (h : Double.read? cs = some x)
    (htrim : Text.trim cs = cs) (hsign : beginsWithSign cs = false) : Word cs := by
  have hforeign : ∀ {c : Char}, Double.Foreign c → c ∉ cs := by
    intro c hc
    have hno := Double.not_mem_of_read? h hc
    rwa [htrim] at hno
  have hne : cs ≠ [] := by
    rintro rfl
    rcases Double.exists_digit_or_n_of_read? h with ⟨c, hc, -⟩ | ⟨c, hc, -⟩
    · cases hc
    · cases hc
  obtain ⟨c, rest, hcons⟩ := List.exists_cons_of_ne_nil hne
  have hfirst : c ≠ '+' ∧ c ≠ '-' := by
    constructor
    · rintro rfl
      rw [hcons, beginsWithSign_cons rest (Or.inl rfl)] at hsign
      cases hsign
    · rintro rfl
      rw [hcons, beginsWithSign_cons rest (Or.inr rfl)] at hsign
      cases hsign
  unfold Double.read? at h
  rw [htrim] at h
  split at h
  · cases h
  · rename_i js hjoin
    have hunsigned : beginsWithSign js = false := by
      have hhead := Double.head?_joinGroups? hjoin
      rw [hcons, List.map_cons, List.head?_cons] at hhead
      cases js with
      | nil => cases hhead
      | cons y js =>
        obtain rfl : y = asciiDigit c := Option.some.inj hhead
        refine beginsWithSign_cons_eq_false js (fun hy => hfirst.1 ?_) fun hy => hfirst.2 ?_
        · exact eq_of_asciiDigit hy rfl
        · exact eq_of_asciiDigit hy rfl
    rw [takeSign_of_unsigned hunsigned] at h
    dsimp only at h
    obtain ⟨-, y, hy, hend⟩ := signs_of_readUnsigned? h []
    rw [Double.getLast?_joinGroups? hjoin, List.getLast?_map, Option.mem_def,
      Option.map_eq_some_iff] at hy
    obtain ⟨z, hz, rfl⟩ := hy
    obtain ⟨init, hinit⟩ := List.getLast?_eq_some_iff.mp hz
    have hlast : z ∉ ['+', '-', 'e', 'E'] := by
      intro hmem
      have hself : ∀ x ∈ ['+', '-', 'e', 'E'], asciiDigit x = x := by decide
      exact hend.not_mem (by rwa [hself z hmem])
    simp only [List.mem_cons, not_or] at hlast
    refine ⟨fun x hx => ⟨?_, fun hsep => ?_⟩, ⟨c, rest, hcons, hfirst⟩,
      ⟨init, z, hinit, hlast.1, hlast.2.1⟩, fun before => ?_, fun before _ => ?_⟩
    · cases hblank : Text.isBlank x with
      | false => rfl
      | true => exact absurd hx (hforeign (Text.forall_blank (by decide) hblank))
    · have hall : ∀ y ∈ separators, Double.Foreign y := by decide
      exact hforeign (hall x hsep) hx
    · have hsigns := (signs_of_readUnsigned? h (before.map asciiDigit)).1
      exact outside_of_map (outside_of_joinGroups? hjoin id rfl hsigns)
    · rw [hinit, List.reverse_append, List.reverse_singleton, List.singleton_append,
        List.cons_append]
      exact endsAtExponent_cons hlast.2.2.1 hlast.2.2.2.1

end Expression

end Worksheet
