-- What a cut leaves of a balanced text. The operands are trimmed, balanced and
-- not empty, and nothing is lost but blanks. Each operand is scanned anew, with
-- less text around it, and still no operator is found in it that was passed over
-- in the whole: the right operand is cut at tighter operators only, or at a power
-- behind a power, and the left operand at none that is looser.
import Worksheet.Proofs.Expression.Margin
import Worksheet.Proofs.Expression.Soundness

namespace Worksheet

/-- Operators of the first class bind tighter than those of the second. -/
def Precedence.Tighter (a b : Precedence) : Prop := b.level.rank < a.level.rank

instance (a b : Precedence) : Decidable (a.Tighter b) :=
  inferInstanceAs (Decidable (b.level.rank < a.level.rank))

namespace Expression

open Text (trim AllBlank)

/-! ## What is said of a cut -/

/-- A text that stands beside an operator. -/
structure BesideOperator (cs : List Char) : Prop where
  ne_nil : cs ≠ []
  trimmed : trim cs = cs
  balanced : Balanced cs

/-- The cut leaves two operands that stand by themselves and loses nothing but
blanks. The right operand has tighter operators only, or powers behind a power,
the left one none that is looser, and the base of a power none at all. -/
structure WellCut (cs : List Char) (s : Split) : Prop where
  left : BesideOperator s.left
  right : BesideOperator s.right
  text : ∃ sp₁ sp₂ sp₃ sp₄, AllBlank sp₁ ∧ AllBlank sp₂ ∧ AllBlank sp₃ ∧ AllBlank sp₄ ∧
    cs = sp₁ ++ s.left ++ sp₂ ++ s.operator.symbol.toList ++ sp₃ ++ s.right ++ sp₄
  /-- Powers are grouped from the right, all other operators from the left. -/
  right_cut : ∀ t, split? s.right = some t →
    t.operator.precedence.Tighter s.operator.precedence ∨
      (s.operator.precedence = .power ∧ t.operator.precedence = .power)
  left_cut : ∀ t, split? s.left = some t → s.operator.precedence ≠ .power ∧
    (t.operator.precedence = s.operator.precedence ∨
      t.operator.precedence.Tighter s.operator.precedence)

/-! ## The class of a cut -/

variable {cs : List Char} {s : Split}

/-- A trimmed text is cut at an operator that it is free for. -/
theorem Free.asTight {lvl : Level} (hfree : Free lvl cs) (hstart : Text.StartsBare cs)
    (h : split? cs = some s) : s.operator.precedence.level.AsTight lvl := by
  rcases split?_cases h with ⟨cls, hcls, hsplit, -⟩ | ⟨hsplit, -⟩
  · obtain ⟨_, _, _, hplace, -, -⟩ := exists_place_of_lastSplit? hsplit
    rw [hplace.precedence]
    exact hfree.asTight_of_lastSplit? hcls hsplit
  · obtain ⟨_, _, _, hplace, -, -⟩ :=
      exists_place_of_firstPower? hstart (unsigned_of_firstPower? hsplit) hsplit
    rw [hplace.precedence]
    exact hfree.asTight_of_firstPower? hsplit

/-- What the level of a right operand lets through. -/
theorem tighter_of_asTight_rightLevel {a b : Precedence} (h : a.level.AsTight b.rightLevel) :
    a.Tighter b ∨ (b = .power ∧ a = .power) := by
  revert h
  cases a <;> cases b <;> decide

/-- What the level of a left operand lets through. -/
theorem tighter_of_asTight_leftLevel {a b : Precedence} (h : a.level.AsTight b.leftLevel) :
    b ≠ .power ∧ (a = b ∨ a.Tighter b) := by
  revert h
  cases a <;> cases b <;> decide

/-! ## The operands of a balanced text -/

/-- A balanced text is cut outside its brackets, and its operands are free of
what is looser. Balance matters at a power: its place is outside brackets from
the left, and the other classes are looked for from the right. -/
theorem exists_parts_of_split? (hstart : Text.StartsBare cs) (hend : Text.EndsBare cs)
    (hbalanced : Balanced cs) (h : split? cs = some s) :
    ∃ cls pre c post sp sp', Place cls cs pre c post s ∧ Parts s sp sp' pre c post ∧
      net post = 0 ∧ Free cls.leftLevel s.left ∧ Free cls.rightLevel s.right := by
  rcases split?_cases h with ⟨cls, hcls, hsplit, hfree⟩ | ⟨hsplit, hscan⟩
  · obtain ⟨pre, c, post, hplace, hnet, hlast⟩ := exists_place_of_lastSplit? hsplit
    obtain ⟨sp, sp', hp⟩ := hplace.exists_parts hstart hend
    obtain ⟨hl, hr⟩ := hplace.free_operands hp hcls hnet hlast hfree
    exact ⟨cls, pre, c, post, sp, sp', hplace, hp, hnet, hl, hr⟩
  · have hsign := unsigned_of_firstPower? hsplit
    obtain ⟨pre, c, post, hplace, hpre, hfirst⟩ := exists_place_of_firstPower? hstart hsign hsplit
    obtain ⟨sp, sp', hp⟩ := hplace.exists_parts hstart hend
    have hpost : net post = 0 := by
      have hsettled := hbalanced.settled
      rw [hplace.text, net_append, net_cons, hpre, hplace.plain] at hsettled
      omega
    exact ⟨.power, pre, c, post, sp, sp', hplace, hp, hpost,
      hplace.free_base hp hstart hsign hpost hfirst hscan, hplace.free_exponent hp hscan⟩

/-- The operands of a balanced text are balanced if the place is outside brackets. -/
theorem Parts.balanced {pre post sp sp' : List Char} {c : Char} (h : Parts s sp sp' pre c post)
    (hbalanced : Balanced (pre ++ c :: post)) (hpost : net post = 0) :
    Balanced s.left ∧ Balanced s.right := by
  rw [h.text] at hbalanced
  rw [h.back] at hpost
  have hblank := balanced_of_allBlank h.blank
  have hblank' := balanced_of_allBlank h.blank'
  have hsymbol := balanced_symbol s.operator
  have hfront := hbalanced.of_append_left hpost
  have hback := hbalanced.of_append_right hfront.settled
  rw [List.append_assoc] at hfront
  exact ⟨hfront.of_append_left (hblank.append hsymbol).settled,
    hback.of_append_right hblank'.settled⟩

theorem balanced_trim (h : Balanced cs) : Balanced (trim cs) := by
  obtain ⟨sp, sp', hsp, hsp', he⟩ := Text.exists_trim cs
  rw [he] at h
  have hfront := h.of_append_left (balanced_of_allBlank hsp').settled
  exact hfront.of_append_right (balanced_of_allBlank hsp).settled

/-- Every cut of a balanced text is one of these: no operator that is passed over
in the whole is found in an operand. -/
theorem wellCut_of_balanced (hbalanced : Balanced cs) (h : split? cs = some s) :
    WellCut cs s := by
  obtain ⟨sp₁, sp₄, hsp₁, hsp₄, he⟩ := Text.exists_trim cs
  have htrimmed := balanced_trim hbalanced
  rw [← split?_trim] at h
  obtain ⟨cls, pre, c, post, sp₂, sp₃, hplace, hp, hpost, hfreel, hfreer⟩ :=
    exists_parts_of_split? (Text.startsBare_trim cs) (Text.endsBare_trim cs) htrimmed h
  obtain ⟨hl, hr⟩ := hp.balanced (hplace.text ▸ htrimmed) hpost
  have hprec := hplace.precedence
  subst hprec
  refine ⟨⟨hplace.ne_nil.1, hplace.trim_left, hl⟩, ⟨hplace.ne_nil.2, hplace.trim_right, hr⟩,
    ⟨sp₁, sp₂, sp₃, sp₄, hsp₁, hp.blank, hp.blank', hsp₄, ?_⟩, fun t ht => ?_, fun t ht => ?_⟩
  · rw [he, hplace.text, hp.text]
    simp
  · exact tighter_of_asTight_rightLevel (hfreer.asTight hplace.startsBare_right ht)
  · exact tighter_of_asTight_leftLevel (hfreel.asTight hplace.startsBare_left ht)

/-- A comparison of a difference with a sign and powers in it, and one with
another comparison in brackets and the sign of an exponent. -/
theorem wellCut_comparison :
    Balanced "\t1 - -2 ^ 3 ^ 2 >=(4 < 5) * 2e-1 - 6 ".toList ∧
      split? "\t1 - -2 ^ 3 ^ 2 >=(4 < 5) * 2e-1 - 6 ".toList =
        some ⟨"1 - -2 ^ 3 ^ 2".toList, .comparison .atLeast, "(4 < 5) * 2e-1 - 6".toList⟩ ∧
      WellCut "\t1 - -2 ^ 3 ^ 2 >=(4 < 5) * 2e-1 - 6 ".toList
        ⟨"1 - -2 ^ 3 ^ 2".toList, .comparison .atLeast, "(4 < 5) * 2e-1 - 6".toList⟩ := by
  have hbalanced : Balanced "\t1 - -2 ^ 3 ^ 2 >=(4 < 5) * 2e-1 - 6 ".toList := by decide
  have hcut : split? "\t1 - -2 ^ 3 ^ 2 >=(4 < 5) * 2e-1 - 6 ".toList =
      some ⟨"1 - -2 ^ 3 ^ 2".toList, .comparison .atLeast, "(4 < 5) * 2e-1 - 6".toList⟩ := by
    decide
  exact ⟨hbalanced, hcut, wellCut_of_balanced hbalanced hcut⟩

end Expression

end Worksheet
