-- What a text must hold to be read as a double: a digit, or one of the words
-- for what is not finite. Whatever it holds, it has no foreign character in
-- it: no bracket, and none of the other letters.
import Worksheet.Double.Text
import Worksheet.Proofs.Text.Character
import Worksheet.Proofs.Text.Trim

namespace Worksheet.Double

open Text (asciiDigit isDecimalDigit)

/-! ## Groups of digits -/

theorem joinGroups?_eq_some {cs : List Char} (h : '_' ∉ cs) (prev : Char) :
    joinGroups? prev cs = some cs := by
  induction cs generalizing prev with
  | nil => rw [joinGroups?]
  | cons c cs ih =>
    rw [List.mem_cons, not_or] at h
    have hc : c ≠ '_' := fun e => h.1 e.symm
    rw [joinGroups?.eq_def]
    split
    · rename_i heq
      cases heq
    · rename_i heq
      cases heq
      exact absurd rfl hc
    · rename_i d ds _ heq
      cases heq
      rw [if_neg hc, ih h.2]
      rfl

/-- Joining takes out underscores, and nothing else. -/
theorem mem_joinGroups?_iff {prev : Char} {cs js : List Char} (h : joinGroups? prev cs = some js)
    {c : Char} (hc : c ≠ '_') : c ∈ js ↔ c ∈ cs := by
  fun_induction joinGroups? prev cs generalizing js with
  | case1 => simp_all
  | case2 prev d cs hd ih =>
    rw [Option.map_eq_some_iff] at h
    obtain ⟨ks, hk, rfl⟩ := h
    rw [List.mem_cons, ih hk, List.mem_cons, List.mem_cons]
    simp [hc]
  | case3 => cases h
  | case4 => cases h
  | case5 prev d cs _ hd ih =>
    rw [Option.map_eq_some_iff] at h
    obtain ⟨ks, hk, rfl⟩ := h
    rw [List.mem_cons, ih hk, List.mem_cons]

/-! ## Letters and foreign characters -/

theorem eq_of_toLower_eq_n {c : Char} (h : c.toLower = 'n') : c = 'n' ∨ c = 'N' := by
  by_cases hascii : c.toNat < 128
  · have hall : ∀ n < 128, (Char.ofNat n).toLower = 'n' →
        Char.ofNat n = 'n' ∨ Char.ofNat n = 'N' := by decide
    have hc := hall c.toNat hascii
    rw [Char.ofNat_toNat] at hc
    exact hc h
  · have hle : ¬ (c.val ≥ 'A'.val ∧ c.val ≤ 'Z'.val) := by
      rintro ⟨-, hz⟩
      have hz' : c.toNat ≤ 90 := hz
      omega
    unfold Char.toLower at h
    rw [dif_neg hle] at h
    exact Or.inl h

theorem mem_of_mem_takeSign {cs : List Char} {c : Char} (h : c ∈ (takeSign cs).2) : c ∈ cs := by
  unfold takeSign at h
  split at h
  · exact List.mem_cons_of_mem _ h
  · exact List.mem_cons_of_mem _ h
  · exact h

theorem mem_takeSign_of_mem {cs : List Char} {c : Char} (h : c ∈ cs) (hplus : c ≠ '+')
    (hminus : c ≠ '-') : c ∈ (takeSign cs).2 := by
  unfold takeSign
  split
  · rcases List.mem_cons.mp h with rfl | h
    · exact absurd rfl hminus
    · exact h
  · rcases List.mem_cons.mp h with rfl | h
    · exact absurd rfl hplus
    · exact h
  · exact h

/-- The character stands in no number: it is a digit of no script, no sign,
point or underscore, and no letter of an exponent or of a word. -/
def Foreign (c : Char) : Prop :=
  asciiDigit c = c ∧ c.isDigit = false ∧ c ∉ ['.', 'e', 'E', '+', '-', '_'] ∧
    c.toLower ∉ ['i', 'n', 'f', 't', 'y', 'a']

instance (c : Char) : Decidable (Foreign c) := inferInstanceAs (Decidable (_ ∧ _ ∧ _ ∧ _))

theorem Foreign.ne {c : Char} (h : Foreign c) :
    c ≠ '.' ∧ c ≠ 'e' ∧ c ≠ 'E' ∧ c ≠ '+' ∧ c ≠ '-' ∧ c ≠ '_' := by
  simpa only [List.mem_cons, List.not_mem_nil, or_false, not_or] using h.2.2.1

theorem not_mem_of_readExponent? {cs : List Char} {e : Int} (h : readExponent? cs = some e)
    {x : Char} (hx : Foreign x) : x ∉ cs := by
  intro hmem
  obtain ⟨-, he, hE, hplus, hminus, -⟩ := hx.ne
  unfold readExponent? at h
  split at h
  · exact List.not_mem_nil hmem
  · rename_i c ds
    dsimp only at h
    split at h
    · rename_i hc
      obtain ⟨hmark, -, hall⟩ := hc
      rw [List.all_eq_true] at hall
      rcases List.mem_cons.mp hmem with rfl | hmem
      · simp [he, hE] at hmark
      · have hdigit := hall x (mem_takeSign_of_mem hmem hplus hminus)
        rw [hx.2.1] at hdigit
        cases hdigit
    · cases h

/-- The parts of a decimal: digits, perhaps a point with more of them, and
an exponent. -/
theorem exists_parts_of_readDecimal? {cs : List Char} {d : Decimal}
    (h : readDecimal? cs = some d) :
    ∃ whole point fraction tail e, cs = whole ++ (point ++ (fraction ++ tail)) ∧
      (point = [] ∨ point = ['.']) ∧ (∀ c ∈ whole ++ fraction, c.isDigit = true) ∧
      whole ++ fraction ≠ [] ∧ readExponent? tail = some e := by
  have hsplit := List.takeWhile_append_dropWhile (p := Char.isDigit) (l := cs)
  have hwhole : ∀ c ∈ cs.takeWhile Char.isDigit, c.isDigit = true :=
    fun c hc => List.mem_takeWhile_imp hc
  unfold readDecimal? at h
  dsimp only at h
  generalize cs.takeWhile Char.isDigit = whole at *
  generalize cs.dropWhile Char.isDigit = rest at *
  subst hsplit
  split at h
  · rename_i r
    dsimp only at h
    split at h
    · cases h
    · rename_i hempty
      rw [Option.map_eq_some_iff] at h
      obtain ⟨e, he, -⟩ := h
      refine ⟨whole, ['.'], r.takeWhile Char.isDigit, r.dropWhile Char.isDigit, e, ?_, Or.inr rfl,
        ?_, ?_, he⟩
      · rw [List.takeWhile_append_dropWhile]
        rfl
      · intro c hc
        rcases List.mem_append.mp hc with hc | hc
        · exact hwhole c hc
        · exact List.mem_takeWhile_imp hc
      · intro hnil
        rw [List.append_eq_nil_iff] at hnil
        simp [hnil.1, hnil.2] at hempty
  · dsimp only at h
    split at h
    · cases h
    · rename_i hempty
      rw [Option.map_eq_some_iff] at h
      obtain ⟨e, he, -⟩ := h
      refine ⟨whole, [], [], rest, e, rfl, Or.inl rfl, by simpa using hwhole, ?_, he⟩
      intro hnil
      rw [List.append_nil] at hnil
      simp [hnil] at hempty

/-- A decimal has a digit. -/
theorem exists_digit_of_readDecimal? {cs : List Char} {d : Decimal}
    (h : readDecimal? cs = some d) : ∃ c ∈ cs, c.isDigit = true := by
  obtain ⟨whole, point, fraction, tail, e, rfl, -, hdigits, hne, -⟩ :=
    exists_parts_of_readDecimal? h
  obtain ⟨c, rest, hc⟩ := List.exists_cons_of_ne_nil hne
  have hmem : c ∈ whole ++ fraction := by rw [hc]; simp
  refine ⟨c, ?_, hdigits c hmem⟩
  rcases List.mem_append.mp hmem with h | h
  · simp [h]
  · simp [h]

theorem not_mem_of_readDecimal? {cs : List Char} {d : Decimal} (h : readDecimal? cs = some d)
    {x : Char} (hx : Foreign x) : x ∉ cs := by
  obtain ⟨whole, point, fraction, tail, e, rfl, hpoint, hdigits, -, he⟩ :=
    exists_parts_of_readDecimal? h
  intro hmem
  have hno : x ∉ whole ++ fraction := fun hin => by
    have hdigit := hdigits x hin
    rw [hx.2.1] at hdigit
    cases hdigit
  simp only [List.mem_append, not_or] at hmem hno
  rcases hmem with h | h | h | h
  · exact hno.1 h
  · rcases hpoint with rfl | rfl
    · exact List.not_mem_nil h
    · exact hx.ne.1 (List.mem_singleton.mp h)
  · exact hno.2 h
  · exact not_mem_of_readExponent? he hx h

/-! ## Numbers -/

/-- A number without a sign is a decimal, or a word with the letter n. -/
theorem readUnsigned?_eq_some {negative : Bool} {cs : List Char} {x : Double}
    (h : readUnsigned? negative cs = some x) :
    ((∃ c ∈ cs, c.isDigit = true) ∨ ∃ c ∈ cs, c = 'n' ∨ c = 'N') ∧
      ∀ x, Foreign x → x ∉ cs := by
  have hword : ∀ word ∈ [['i', 'n', 'f'], ['i', 'n', 'f', 'i', 'n', 'i', 't', 'y'],
      ['n', 'a', 'n']], cs.map Char.toLower = word →
      (∃ c ∈ cs, c = 'n' ∨ c = 'N') ∧ ∀ x, Foreign x → x ∉ cs := by
    intro word hword he
    have hn : ∀ w ∈ [['i', 'n', 'f'], ['i', 'n', 'f', 'i', 'n', 'i', 't', 'y'], ['n', 'a', 'n']],
        'n' ∈ w ∧ ∀ c ∈ w, c ∈ ['i', 'n', 'f', 't', 'y', 'a'] := by decide
    obtain ⟨hmem, hletters⟩ := hn word hword
    rw [← he] at hmem
    obtain ⟨c, hc, hlower⟩ := List.mem_map.mp hmem
    refine ⟨⟨c, hc, eq_of_toLower_eq_n hlower⟩, fun x hx hxc => ?_⟩
    exact hx.2.2.2 (hletters _ (he ▸ List.mem_map_of_mem hxc))
  unfold readUnsigned? at h
  dsimp only at h
  split at h
  · rename_i hinf
    rcases hinf with hinf | hinf
    · obtain ⟨hn, hno⟩ := hword _ (by simp) hinf
      exact ⟨Or.inr hn, hno⟩
    · obtain ⟨hn, hno⟩ := hword _ (by simp) hinf
      exact ⟨Or.inr hn, hno⟩
  · split at h
    · rename_i hnan
      obtain ⟨hn, hno⟩ := hword _ (by simp) hnan
      exact ⟨Or.inr hn, hno⟩
    · rw [Option.map_eq_some_iff] at h
      obtain ⟨d, hd, -⟩ := h
      exact ⟨Or.inl (exists_digit_of_readDecimal? hd), fun x hx => not_mem_of_readDecimal? hd hx⟩

/-- A text that is read as a double has a digit or the letter n. -/
theorem exists_digit_or_n_of_read? {cs : List Char} {x : Double} (h : read? cs = some x) :
    (∃ c ∈ cs, isDecimalDigit c = true) ∨ ∃ c ∈ cs, c = 'n' ∨ c = 'N' := by
  unfold read? at h
  split at h
  · cases h
  · rename_i js hjs
    have hback : ∀ c ∈ (takeSign js).2, c ≠ '_' → ∃ d ∈ cs, asciiDigit d = c := by
      intro c hc hne
      have hin := (mem_joinGroups?_iff hjs hne).mp (mem_of_mem_takeSign hc)
      obtain ⟨d, hd, hdc⟩ := List.mem_map.mp hin
      obtain ⟨sp, sp', -, -, he⟩ := Text.exists_trim cs
      exact ⟨d, by rw [he]; simp [hd], hdc⟩
    rcases (readUnsigned?_eq_some h).1 with ⟨c, hc, hdigit⟩ | ⟨c, hc, hn⟩
    · obtain ⟨d, hd, rfl⟩ := hback c hc (by rintro rfl; exact absurd hdigit (by decide))
      cases hdec : isDecimalDigit d with
      | true => exact Or.inl ⟨d, hd, hdec⟩
      | false =>
        rw [Text.asciiDigit_of_not_decimal hdec] at hdigit
        rw [Text.isDecimalDigit_of_isDigit hdigit] at hdec
        cases hdec
    · obtain ⟨d, hd, rfl⟩ := hback c hc (by rintro rfl; simp at hn)
      cases hdec : isDecimalDigit d with
      | true => exact Or.inl ⟨d, hd, hdec⟩
      | false =>
        rw [Text.asciiDigit_of_not_decimal hdec] at hn
        exact Or.inr ⟨d, hd, hn⟩

/-- A text that is read as a double has no foreign character, blanks around
it apart. -/
theorem not_mem_of_read? {cs : List Char} {x : Double} (h : read? cs = some x) {c : Char}
    (hc : Foreign c) : c ∉ Text.trim cs := by
  intro hmem
  obtain ⟨-, -, -, hplus, hminus, hline⟩ := hc.ne
  unfold read? at h
  split at h
  · cases h
  · rename_i js hjs
    have hin : c ∈ (Text.trim cs).map asciiDigit := by
      rw [← hc.1]
      exact List.mem_map_of_mem hmem
    have hjoined := (mem_joinGroups?_iff hjs hline).mpr hin
    exact (readUnsigned?_eq_some h).2 c hc (mem_takeSign_of_mem hjoined hplus hminus)

end Worksheet.Double
