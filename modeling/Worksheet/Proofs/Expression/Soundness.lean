-- What has a value is an expression. A text without a fault in its tree renders
-- the tree, and without sheet functions a text that is evaluated has the value
-- of the tree that it renders. An operator that a scan passes over is passed
-- over in the operands too, so no text without a rendering is let through and
-- no rendering is grouped in another way.
import Worksheet.Proofs.Expression.Completeness
import Worksheet.Proofs.Expression.NumberText
import Worksheet.Proofs.Expression.Place

namespace Worksheet.Expression

open Text (trim)

/-! ## The grammar of what is evaluated -/

/-- The numbers and constants of a text that is evaluated: all that is read
as a number, without a sign in front, and the names of constants. -/
inductive LiberalLeaf : List Char → Expression → Prop
  | number {cs : List Char} {n : Number} :
      numberOf? cs = some n → trim cs = cs → beginsWithSign cs = false → LiberalLeaf cs (.number n)
  | constant {k : Constant} {cs : List Char} : Spells k cs → LiberalLeaf cs (.constant k)

theorem LiberalLeaf.word {cs : List Char} {e : Expression} (h : LiberalLeaf cs e) : Word cs := by
  cases h with
  | number hn htrim hsign =>
    unfold numberOf? at hn
    split at hn
    · cases hn
    · rename_i hread
      exact word_of_read? hread htrim hsign
  | constant hk => exact hk.word

theorem LiberalLeaf.leaf {cs : List Char} {e : Expression} (h : LiberalLeaf cs e) :
    Expression.leaf cs = e := by
  cases h with
  | number hn _ _ =>
    unfold Expression.leaf
    rw [hn]
  | constant hk => exact hk.leaf

/-- Expressions with blanks of any kind between their tokens and calls of
registered functions. -/
def liberal (r : Registry) : Grammar where
  space := Text.isBlank
  leaf := LiberalLeaf
  name cs := IsName cs ∧ r.has (String.ofList cs) = true
  isBlank_of_space _ h := h
  noBrackets_of_leaf _ _ h := h.word.noBrackets
  isName_of_name _ h := h.1

/-- Expressions with blanks of any kind between their tokens and calls of
known functions. -/
def liberalWith (known : String → Prop) : Grammar where
  space := Text.isBlank
  leaf := LiberalLeaf
  name cs := IsName cs ∧ known (String.ofList cs)
  isBlank_of_space _ h := h
  noBrackets_of_leaf _ _ h := h.word.noBrackets
  isName_of_name _ h := h.1

theorem liberalWith_registered (r : Registry) :
    liberalWith (fun name => r.has name = true) = liberal r := rfl

variable {known : String → Prop}

instance liberalWith_legible : (liberalWith known).Legible := ⟨LiberalLeaf.word, LiberalLeaf.leaf⟩

/-! ## Trees without faults in them -/

/-- No leaf of the tree holds a fault, and its calls are of known functions. -/
inductive Formed (known : String → Prop) : Expression → Prop
  | number (n : Number) : Formed known (.number n)
  | constant (k : Constant) : Formed known (.constant k)
  | negative {e : Expression} : Formed known e → Formed known (.negative e)
  | positive {e : Expression} : Formed known e → Formed known (.positive e)
  | binary (op : Operator) {a b : Expression} :
      Formed known a → Formed known b → Formed known (.binary op a b)
  | call {name : String} {args : List Expression} :
      known name → (∀ e ∈ args, Formed known e) → Formed known (.call name args)

theorem not_formed_malformed (f : Fault) : ¬ Formed known (.malformed f) := by
  intro h
  cases h

theorem Formed.of_negative {e : Expression} (h : Formed known (.negative e)) : Formed known e := by
  cases h with
  | negative he => exact he

theorem Formed.of_positive {e : Expression} (h : Formed known (.positive e)) : Formed known e := by
  cases h with
  | positive he => exact he

theorem Formed.of_binary {op : Operator} {a b : Expression} (h : Formed known (.binary op a b)) :
    Formed known a ∧ Formed known b := by
  cases h with
  | binary _ ha hb => exact ⟨ha, hb⟩

theorem Formed.of_call {name : String} {args : List Expression}
    (h : Formed known (.call name args)) : known name ∧ ∀ e ∈ args, Formed known e := by
  cases h with
  | call hname hargs => exact ⟨hname, hargs⟩

section Values

variable {c : Calculator}

mutual

/-- A tree with a value is formed: what it calls is registered, or there is a
library to ask. -/
theorem formed_of_eval
    (hknown : ∀ name, c.registry.has name = true ∨ c.library?.isSome = true → known name) :
    (e : Expression) → {v : Value} → e.eval c = .ok v → Formed known e
  | .number n, _, _ => .number n
  | .constant k, _, _ => .constant k
  | .malformed f, v, h => by
    rw [eval] at h
    cases h
  | .negative e, v, h => by
    rw [eval] at h
    split at h
    · cases h
    · rename_i he
      exact .negative (formed_of_eval hknown e he)
  | .positive e, v, h => by
    rw [eval] at h
    split at h
    · cases h
    · rename_i he
      exact .positive (formed_of_eval hknown e he)
  | .binary op a b, v, h => by
    rw [eval] at h
    split at h
    · cases h
    · rename_i ha
      split at h
      · cases h
      · rename_i hb
        exact .binary op (formed_of_eval hknown a ha) (formed_of_eval hknown b hb)
  | .call name args, v, h => by
    rw [eval] at h
    split at h
    · rename_i f hf
      split at h
      · cases h
      · rename_i hargs
        refine .call (hknown name (Or.inl ?_)) (formed_of_evalAll hknown args hargs)
        unfold Registry.has
        rw [hf]
        rfl
    · split at h
      · rename_i library hlibrary
        split at h
        · cases h
        · rename_i hargs
          refine .call (hknown name (Or.inr ?_)) (formed_of_evalAll hknown args hargs)
          rw [hlibrary]
          rfl
      · cases h

theorem formed_of_evalAll
    (hknown : ∀ name, c.registry.has name = true ∨ c.library?.isSome = true → known name) :
    (args : List Expression) → {vs : List Value} → evalAll c args = .ok vs →
      ∀ e ∈ args, Formed known e
  | [], _, _ => by simp
  | e :: rest, vs, h => by
    rw [evalAll] at h
    split at h
    · cases h
    · rename_i he
      split at h
      · cases h
      · rename_i hrest
        rw [List.forall_mem_cons]
        exact ⟨formed_of_eval hknown e he, formed_of_evalAll hknown rest hrest⟩

end

end Values

variable {r : Registry}

/-- Without a library the tree has a value. -/
def Evaluates (r : Registry) (e : Expression) : Prop := ∃ v, e.eval ⟨r, none⟩ = .ok v

theorem Evaluates.formed {e : Expression} (h : Evaluates r e) :
    Formed (fun name => r.has name = true) e := by
  obtain ⟨v, hv⟩ := h
  refine formed_of_eval (fun name hname => ?_) e hv
  rcases hname with hname | hname
  · exact hname
  · cases hname

/-! ## Texts without looser operators -/

/-- The text is not cut at an operator that is looser than the level, and
has no sign in front if the level is tighter than that of signs. -/
structure Free (lvl : Level) (cs : List Char) : Prop where
  scan : ∀ cls, cls ≠ .power → cls.level.rank < lvl.rank → lastSplit? cls cs.reverse [] 0 = none
  sign : Level.signed.rank < lvl.rank → beginsWithSign cs = false
  power : Level.power.rank < lvl.rank → firstPower? [] cs 0 = none

theorem free_comparison (cs : List Char) : Free .comparison cs :=
  ⟨fun _ _ h => absurd h (Nat.not_lt_zero _), fun h => absurd h (by decide),
    fun h => absurd h (by decide)⟩

/-- Up to the level of signs only the scans from the right matter. -/
theorem free_of_scans {lvl : Level} {cs : List Char} (hlvl : Level.signed.AsTight lvl)
    (h : ∀ cls, cls ≠ .power → cls.level.rank < lvl.rank →
      lastSplit? cls cs.reverse [] 0 = none) : Free lvl cs := by
  refine ⟨h, fun hs => ?_, fun hp => ?_⟩
  · exact absurd hs (Nat.not_lt.mpr hlvl)
  · have hle : lvl.rank ≤ Level.power.rank := Nat.le_trans hlvl (by decide)
    exact absurd hp (Nat.not_lt.mpr hle)

/-- A cut is at the last operator of the loosest class, or at a power. -/
theorem split?_cases {cs : List Char} {s : Split} (h : split? cs = some s) :
    (∃ cls, cls ≠ .power ∧ lastSplit? cls cs.reverse [] 0 = some s ∧ Free cls.level cs) ∨
      (firstPower? [] cs 0 = some s ∧
        ∀ cls, cls ≠ .power → lastSplit? cls cs.reverse [] 0 = none) := by
  unfold split? at h
  split at h
  · rename_i t ht
    cases h
    exact Or.inl ⟨.comparison, by decide, ht, free_comparison cs⟩
  · rename_i hcomparison
    split at h
    · rename_i t ht
      cases h
      refine Or.inl ⟨.additive, by decide, ht, free_of_scans (by decide) fun cls _ hlt => ?_⟩
      cases cls with
      | comparison => exact hcomparison
      | additive => exact absurd hlt (by decide)
      | multiplicative => exact absurd hlt (by decide)
      | power => exact absurd hlt (by decide)
    · rename_i hadditive
      split at h
      · rename_i t ht
        cases h
        refine Or.inl ⟨.multiplicative, by decide, ht,
          free_of_scans (by decide) fun cls _ hlt => ?_⟩
        cases cls with
        | comparison => exact hcomparison
        | additive => exact hadditive
        | multiplicative => exact absurd hlt (by decide)
        | power => exact absurd hlt (by decide)
      · rename_i hmultiplicative
        refine Or.inr ⟨h, fun cls hcls => ?_⟩
        cases cls with
        | comparison => exact hcomparison
        | additive => exact hadditive
        | multiplicative => exact hmultiplicative
        | power => exact absurd rfl hcls

theorem scan_of_split?_eq_none {cs : List Char} (h : split? cs = none) (cls : Precedence)
    (hcls : cls ≠ .power) : lastSplit? cls cs.reverse [] 0 = none := by
  unfold split? at h
  split at h
  · cases h
  · split at h
    · cases h
    · split at h
      · cases h
      · cases cls with
        | comparison => assumption
        | additive => assumption
        | multiplicative => assumption
        | power => exact absurd rfl hcls

variable {cs : List Char} {a b : Expression} {s : Split}

/-! ## Operands of a cut -/

/-- A text that is cut at an operator is not freer than the class of the operator. -/
theorem Free.asTight_of_lastSplit? {lvl : Level} {cls : Precedence} (hfree : Free lvl cs)
    (hcls : cls ≠ .power) (h : lastSplit? cls cs.reverse [] 0 = some s) :
    cls.level.AsTight lvl := by
  refine Nat.not_lt.mp fun hlt => ?_
  rw [hfree.scan cls hcls hlt] at h
  cases h

theorem Free.asTight_of_firstPower? {lvl : Level} (hfree : Free lvl cs)
    (h : firstPower? [] cs 0 = some s) : Level.power.AsTight lvl := by
  refine Nat.not_lt.mp fun hlt => ?_
  rw [hfree.power hlt] at h
  cases h

section Places

variable {cls : Precedence} {pre post sp sp' : List Char} {c : Char}

/-- Before the last operator of the loosest class there is none that is
looser, and behind it none of the class either. -/
theorem Place.free_operands (h : Place cls cs pre c post s) (hp : Parts s sp sp' pre c post)
    (hcls : cls ≠ .power) (hnet : net post = 0)
    (hlast : ∀ {pre' c' post' t}, Place cls cs pre' c' post' t → net post' = 0 →
      post.length ≤ post'.length)
    (hfree : Free cls.level cs) : Free cls.leftLevel s.left ∧ Free cls.rightLevel s.right := by
  constructor
  · apply free_of_scans (by revert hcls; cases cls <;> decide)
    intro cls' hcls' hlt
    refine h.scan_left hp hnet (hfree.scan cls' hcls' ?_)
    cases cls with
    | comparison => exact hlt
    | additive => exact hlt
    | multiplicative => exact hlt
    | power => exact absurd rfl hcls
  · apply free_of_scans (by cases cls <;> decide)
    intro cls' hcls' hlt
    by_cases he : cls' = cls
    · subst he
      exact h.scan_right_of_last hp hlast
    · refine h.scan_right hp (hfree.scan cls' hcls' ?_)
      revert hcls hcls' hlt he
      cases cls <;> cases cls' <;> decide

/-- An exponent may have signs in front and powers in it. -/
theorem Place.free_exponent (h : Place .power cs pre c post s) (hp : Parts s sp sp' pre c post)
    (hscan : ∀ cls, cls ≠ .power → lastSplit? cls cs.reverse [] 0 = none) :
    Free .signed s.right :=
  free_of_scans (by decide) fun cls hcls _ => h.scan_right hp (hscan cls hcls)

/-- The base of the first power has no sign in front and no operator in it. -/
theorem Place.free_base (h : Place .power cs pre c post s) (hp : Parts s sp sp' pre c post)
    (hstart : Text.StartsBare cs) (hsign : beginsWithSign cs = false) (hpost : net post = 0)
    (hfirst : ∀ {pre' c' post' t}, Place .power cs pre' c' post' t → net pre' = 0 →
      pre.length ≤ pre'.length)
    (hscan : ∀ cls, cls ≠ .power → lastSplit? cls cs.reverse [] 0 = none) :
    Free .primary s.left := by
  have hunsigned : beginsWithSign s.left = false := by
    have hcs : cs = s.left ++ (sp ++ s.operator.symbol.toList ++ (sp' ++ s.right)) := by
      rw [h.text, hp.text]
      simp
    have htrimmed := beginsWithSign_trim_eq_false hstart hsign hcs
    rwa [h.trim_left] at htrimmed
  refine ⟨fun cls hcls _ => ?_, fun _ => hunsigned, fun _ => ?_⟩
  · exact h.scan_left hp hpost (hscan cls hcls)
  · exact h.power_left_of_first hp h.startsBare_left hunsigned hfirst

end Places

/-- A text that is cut from the right renders the operation if its operands
render theirs at every level that they can. -/
theorem renders_of_lastSplit? {cls : Precedence} (hstart : Text.StartsBare cs)
    (hend : Text.EndsBare cs) (hcls : cls ≠ .power)
    (hsplit : lastSplit? cls cs.reverse [] 0 = some s) (hfree : Free cls.level cs)
    (hleft : ∀ lvl, Free lvl (trim s.left) → Renders (liberalWith known) lvl (trim s.left) a)
    (hright : ∀ lvl, Free lvl (trim s.right) → Renders (liberalWith known) lvl (trim s.right) b) :
    Renders (liberalWith known) cls.level cs (.binary s.operator a b) := by
  obtain ⟨pre, c, post, hplace, hnet, hlast⟩ := exists_place_of_lastSplit? hsplit
  obtain ⟨sp, sp', hp⟩ := hplace.exists_parts hstart hend
  obtain ⟨hl, hr⟩ := hplace.free_operands hp hcls hnet hlast hfree
  have hprec := hplace.precedence
  rw [hplace.trim_left] at hleft
  rw [hplace.trim_right] at hright
  rw [hplace.text, hp.text]
  subst hprec
  exact Renders.binary (g := liberalWith known) s.operator hp.blank hp.blank' (hleft _ hl)
    (hright _ hr)

/-- A text that is cut at a power has no sign in front. -/
theorem unsigned_of_firstPower? (h : firstPower? [] cs 0 = some s) : beginsWithSign cs = false := by
  cases hb : beginsWithSign cs with
  | false => rfl
  | true =>
    obtain ⟨c, rest, rfl, hc⟩ := exists_cons_of_beginsWithSign hb
    rw [firstPower?_eq_none_of_sign hc] at h
    cases h

/-- A text that is cut at a power renders the power. The right operand is
balanced, so a place in the left operand is outside brackets from the right
as well as from the left. -/
theorem renders_of_firstPower? (hstart : Text.StartsBare cs) (hend : Text.EndsBare cs)
    (hsplit : firstPower? [] cs 0 = some s)
    (hscan : ∀ cls, cls ≠ .power → lastSplit? cls cs.reverse [] 0 = none)
    (hleft : ∀ lvl, Free lvl (trim s.left) → Renders (liberalWith known) lvl (trim s.left) a)
    (hright : ∀ lvl, Free lvl (trim s.right) → Renders (liberalWith known) lvl (trim s.right) b) :
    Renders (liberalWith known) .power cs (.binary s.operator a b) := by
  have hsign := unsigned_of_firstPower? hsplit
  obtain ⟨pre, c, post, hplace, hnet, hfirst⟩ := exists_place_of_firstPower? hstart hsign hsplit
  obtain ⟨sp, sp', hp⟩ := hplace.exists_parts hstart hend
  have hprec := hplace.precedence
  rw [hplace.trim_left] at hleft
  rw [hplace.trim_right] at hright
  have hr := hright _ (hplace.free_exponent hp hscan)
  have hpost : net post = 0 := by
    rw [hp.back, net_append, (balanced_of_allBlank hp.blank').settled, hr.balanced.settled]
    rfl
  have hl := hleft _ (hplace.free_base hp hstart hsign hpost hfirst hscan)
  have hbinary := Renders.binary (g := liberalWith known) s.operator hp.blank hp.blank'
    (l := s.left) (r := s.right) (a := a) (b := b) (by rw [hprec]; exact hl)
    (by rw [hprec]; exact hr)
  rw [hprec] at hbinary
  rw [hplace.text, hp.text]
  exact hbinary

/-! ## Signs, groups, calls and leaves -/

theorem exists_after_sign {c : Char} {rest : List Char} (hend : Text.EndsBare (c :: rest)) :
    ∃ sp, Text.AllBlank sp ∧ rest = sp ++ trim rest := by
  obtain ⟨sp, sp', hsp, hsp', he⟩ := Text.exists_trim rest
  have hshape : c :: rest = c :: (sp ++ trim rest) ++ sp' := by
    rw [List.cons_append, ← he]
  obtain rfl : sp' = [] := (hshape ▸ hend : Text.EndsBare _).eq_nil hsp'
  rw [List.append_nil] at he
  exact ⟨sp, hsp, he⟩

/-- What follows a sign has no operator that the whole has not. -/
theorem scan_after_sign {cls : Precedence} {c : Char} {rest : List Char} (hc : c = '+' ∨ c = '-')
    (hend : Text.EndsBare (c :: rest))
    (hnone : lastSplit? cls (c :: rest).reverse [] 0 = none) :
    lastSplit? cls (trim rest).reverse [] 0 = none := by
  cases ht : lastSplit? cls (trim rest).reverse [] 0 with
  | none => rfl
  | some t =>
    exfalso
    obtain ⟨sp, hsp, he⟩ := exists_after_sign hend
    obtain ⟨pre, c', post, hplace, hnet, -⟩ := exists_place_of_lastSplit? ht
    have hclear : ClearOfNumbers (c :: sp).reverse := by
      rw [List.reverse_cons]
      apply clear_of_isBlank hsp.reverse
      intro x hx
      cases hx
      rcases hc with rfl | rfl
      · decide
      · decide
    obtain ⟨t', hwhole⟩ := hplace.append (c :: sp) [] hclear
    have hshape : c :: sp ++ trim rest ++ [] = c :: rest := by
      rw [List.append_nil, List.cons_append, ← he]
    rw [hshape, List.append_nil] at hwhole
    exact hwhole.lastSplit?_ne_none hnet hnone

theorem free_after_sign {c : Char} {rest : List Char} (hc : c = '+' ∨ c = '-')
    (hend : Text.EndsBare (c :: rest)) (hsplit : split? (c :: rest) = none) :
    Free .signed (trim rest) :=
  free_of_scans (by decide) fun cls hcls _ =>
    scan_after_sign hc hend (scan_of_split?_eq_none hsplit cls hcls)

theorem renders_of_group? {inside : List Char} {e : Expression} (h : group? cs = some inside)
    (hinside : Renders (liberalWith known) .comparison (trim inside) e) :
    Renders (liberalWith known) .primary cs e := by
  obtain ⟨sp, sp', hsp, hsp', he⟩ := Text.exists_trim inside
  have hgroup := Renders.group (g := liberalWith known) hsp hsp' hinside
  rw [← he] at hgroup
  rw [eq_of_group? h]
  exact hgroup

/-- The pieces between commas are arguments with blanks around them. -/
theorem exists_arguments_of_pieces {pieces : List (List Char)}
    (h : ∀ p ∈ pieces, Renders (liberalWith known) .comparison (trim p) (parse p)) :
    ∃ l : List Argument, l.map Argument.written = pieces ∧
      l.map Argument.tree = pieces.map parse ∧
      (∀ a ∈ l, (liberalWith known).Spaces a.before ∧ (liberalWith known).Spaces a.after) ∧
      ∀ a ∈ l, Renders (liberalWith known) .comparison a.text a.tree := by
  induction pieces with
  | nil => exact ⟨[], rfl, rfl, by simp, by simp⟩
  | cons p rest ih =>
    obtain ⟨l, hwritten, htree, hspaces, hrenders⟩ := ih fun q hq => h q (List.mem_cons_of_mem p hq)
    obtain ⟨sp, sp', hsp, hsp', he⟩ := Text.exists_trim p
    refine ⟨⟨sp, trim p, sp', parse p⟩ :: l, ?_, ?_, ?_, ?_⟩
    · rw [List.map_cons, hwritten, Argument.written, ← he]
    · rw [List.map_cons, htree, List.map_cons]
    · rw [List.forall_mem_cons]
      exact ⟨⟨hsp, hsp'⟩, hspaces⟩
    · rw [List.forall_mem_cons]
      exact ⟨h p (by simp), hrenders⟩

theorem renders_of_callOf? {name args : List Char} (h : callOf? cs = some (name, args))
    (hname : known (String.ofList name))
    (hargs : ∀ p ∈ arguments args, Renders (liberalWith known) .comparison (trim p) (parse p)) :
    Renders (liberalWith known) .primary cs
      (.call (String.ofList name) ((arguments args).map parse)) := by
  obtain ⟨his, sp, hsp, rfl⟩ := eq_of_callOf? h
  unfold arguments at hargs ⊢
  by_cases hblank : Text.isEmptyOrBlank args = true
  · rw [if_pos hblank]
    exact Renders.emptyCall (g := liberalWith known) ⟨his, hname⟩ hsp (List.all_eq_true.mp hblank)
  · rw [if_neg hblank] at hargs ⊢
    obtain ⟨l, hwritten, htree, hspaces, hrenders⟩ := exists_arguments_of_pieces hargs
    have hne : l ≠ [] := by
      rintro rfl
      exact cutArguments_ne_nil 0 args hwritten.symm
    have hall : writtenAll l = args := by
      rw [writtenAll, hwritten, intercalate_cutArguments]
    have hcall := Renders.call (g := liberalWith known) ⟨his, hname⟩ hsp hne hspaces hrenders
    rw [hall, htree] at hcall
    exact hcall

theorem liberalLeaf_of_formed (htrim : trim cs = cs) (hsign : beginsWithSign cs = false)
    (h : Formed known (leaf cs)) : LiberalLeaf cs (leaf cs) := by
  unfold leaf at h ⊢
  split
  · rename_i n hn
    exact .number hn htrim hsign
  · rename_i hnone
    rw [hnone] at h
    dsimp only at h
    split
    · rename_i k hk
      exact .constant (spells_of_ofName? hk)
    · rename_i hconstant
      rw [hconstant] at h
      exact absurd h (not_formed_malformed _)

/-! ## The tree of a text that is evaluated -/

theorem parse_of_split? {text : List Char} (h : split? (trim text) = some s) :
    parse text = .binary s.operator (parse s.left) (parse s.right) := by
  have hparse := parse_eq text
  cases ht : trim text with
  | nil =>
    rw [ht] at h
    cases h
  | cons c rest =>
    rw [ht] at h hparse
    dsimp only at hparse
    rwa [h] at hparse

theorem parse_of_uncut {text : List Char} {c : Char} {rest : List Char} (ht : trim text = c :: rest)
    (h : split? (c :: rest) = none) :
    parse text =
      if c = '(' then
        match group? (c :: rest) with
        | some inside => parse inside
        | none => .malformed (.unbalanced (String.ofList (c :: rest)))
      else
        match callOf? (c :: rest) with
        | some (name, args) => .call (String.ofList name) ((arguments args).map parse)
        | none =>
          if c = '-' then .negative (parse rest)
          else if c = '+' then .positive (parse rest)
          else leaf (c :: rest) := by
  have hparse := parse_eq text
  rw [ht] at hparse
  dsimp only at hparse
  rwa [h] at hparse

/-- A text that is not cut is a group, a call, a sign before a text, or a
leaf. -/
theorem renders_of_uncut {text : List Char} {c : Char} {rest : List Char} {lvl : Level}
    (ht : trim text = c :: rest) (hsplit : split? (c :: rest) = none) (hfree : Free lvl (c :: rest))
    (ih : ∀ {t : List Char} {lvl : Level}, t.length < (c :: rest).length → Free lvl (trim t) →
      Formed known (parse t) → Renders (liberalWith known) lvl (trim t) (parse t))
    (h : Formed known (parse text)) : Renders (liberalWith known) lvl (c :: rest) (parse text) := by
  have hend : Text.EndsBare (c :: rest) := ht ▸ Text.endsBare_trim text
  have hprimary : Level.primary.AsTight lvl := by cases lvl <;> decide
  have hsigned : beginsWithSign (c :: rest) = true → Level.signed.AsTight lvl := by
    intro hsign
    refine Nat.not_lt.mp fun hlt => ?_
    rw [hfree.sign hlt] at hsign
    cases hsign
  rw [parse_of_uncut ht hsplit] at h ⊢
  by_cases hopen : c = '('
  · rw [if_pos hopen] at h ⊢
    cases hgroup : group? (c :: rest) with
    | none =>
      rw [hgroup] at h
      exact absurd h (not_formed_malformed _)
    | some inside =>
      rw [hgroup] at h
      have hinside := ih (length_of_group? hgroup) (free_comparison _) h
      exact Renders.loosen hprimary (renders_of_group? hgroup hinside)
  · rw [if_neg hopen] at h ⊢
    cases hcall : callOf? (c :: rest) with
    | some p =>
      obtain ⟨name, args⟩ := p
      rw [hcall] at h
      obtain ⟨hname, hargs⟩ := h.of_call
      refine Renders.loosen hprimary (renders_of_callOf? hcall hname fun p hp => ?_)
      have hlen := length_of_mem_arguments p hp
      have hshort := length_of_callOf? hcall
      exact ih (Nat.lt_of_le_of_lt hlen hshort) (free_comparison _)
        (hargs _ (List.mem_map_of_mem hp))
    | none =>
      rw [hcall] at h
      dsimp only at h ⊢
      by_cases hminus : c = '-'
      · subst hminus
        rw [if_pos rfl] at h ⊢
        obtain ⟨sp, hsp, he⟩ := exists_after_sign hend
        have hrest := ih (by simp) (free_after_sign (Or.inr rfl) hend hsplit) h.of_negative
        have hall := Renders.negative (g := liberalWith known) hsp hrest
        rw [← he] at hall
        exact Renders.loosen (hsigned rfl) hall
      · rw [if_neg hminus] at h ⊢
        by_cases hplus : c = '+'
        · subst hplus
          rw [if_pos rfl] at h ⊢
          obtain ⟨sp, hsp, he⟩ := exists_after_sign hend
          have hrest := ih (by simp) (free_after_sign (Or.inl rfl) hend hsplit) h.of_positive
          have hall := Renders.positive (g := liberalWith known) hsp hrest
          rw [← he] at hall
          exact Renders.loosen (hsigned rfl) hall
        · rw [if_neg hplus] at h ⊢
          have hself : trim (c :: rest) = c :: rest := by rw [← ht, Text.trim_trim]
          have hsign := beginsWithSign_cons_eq_false rest hplus hminus
          exact Renders.loosen hprimary
            (Renders.leaf (g := liberalWith known) (liberalLeaf_of_formed hself hsign h))

/-- A text whose tree is formed renders the tree, at every level that none of
its operators is looser than. -/
theorem renders_of_formed {text : List Char} {lvl : Level} (hfree : Free lvl (trim text))
    (h : Formed known (parse text)) : Renders (liberalWith known) lvl (trim text) (parse text) := by
  induction hn : text.length using Nat.strong_induction_on generalizing text lvl with
  | _ n ih =>
    subst hn
    have hlen := Text.length_trim_le text
    cases hs : split? (trim text) with
    | some s =>
      obtain ⟨hl, hr⟩ := length_of_split? hs
      have hstart := Text.startsBare_trim text
      have hend := Text.endsBare_trim text
      rw [parse_of_split? hs] at h ⊢
      obtain ⟨ha, hb⟩ := h.of_binary
      have hleft : ∀ lvl, Free lvl (trim s.left) →
          Renders (liberalWith known) lvl (trim s.left) (parse s.left) :=
        fun lvl hf => ih s.left.length (by omega) hf ha rfl
      have hright : ∀ lvl, Free lvl (trim s.right) →
          Renders (liberalWith known) lvl (trim s.right) (parse s.right) :=
        fun lvl hf => ih s.right.length (by omega) hf hb rfl
      rcases split?_cases hs with ⟨cls, hcls, hsplit, hloosest⟩ | ⟨hsplit, hscan⟩
      · exact Renders.loosen (hfree.asTight_of_lastSplit? hcls hsplit)
          (renders_of_lastSplit? hstart hend hcls hsplit hloosest hleft hright)
      · exact Renders.loosen (hfree.asTight_of_firstPower? hsplit)
          (renders_of_firstPower? hstart hend hsplit hscan hleft hright)
    | none =>
      cases ht : trim text with
      | nil =>
        have hparse := parse_eq text
        rw [ht] at hparse
        rw [hparse] at h
        exact absurd h (not_formed_malformed _)
      | cons c rest =>
        rw [ht] at hs hlen hfree
        refine renders_of_uncut ht hs hfree (fun hshort hf he => ?_) h
        exact ih _ (Nat.lt_of_lt_of_le hshort hlen) hf he rfl

/-- A text whose tree has a value renders the tree, at every level that
none of its operators is looser than. -/
theorem renders_of_evaluates {text : List Char} {lvl : Level} (hfree : Free lvl (trim text))
    (h : Evaluates r (parse text)) : Renders (liberal r) lvl (trim text) (parse text) := by
  rw [← liberalWith_registered]
  exact renders_of_formed hfree h.formed

/-! ## What has a value -/

/-- The text is its body between blanks, perhaps with an equals sign in
front of the body. -/
def Encloses (text body : List Char) : Prop :=
  ∃ sp sp' mark, Text.AllBlank sp ∧ Text.AllBlank sp' ∧
    (mark = [] ∨ ∃ gap, Text.AllBlank gap ∧ mark = '=' :: gap) ∧ text = sp ++ mark ++ body ++ sp'

theorem encloses_body (cs : List Char) : Encloses cs (body cs) := by
  obtain ⟨sp, sp', hsp, hsp', he⟩ := Text.exists_trim cs
  unfold body
  split
  · rename_i rest ht
    obtain ⟨gap, gap', hgap, hgap', hrest⟩ := Text.exists_trim rest
    refine ⟨sp, gap' ++ sp', '=' :: gap, hsp, hgap'.append hsp', Or.inr ⟨gap, hgap, rfl⟩, ?_⟩
    rw [ht, hrest] at he
    rw [he]
    simp
  · exact ⟨sp, sp', [], hsp, hsp', Or.inl rfl, by rw [List.append_nil]; exact he⟩

theorem trim_body (cs : List Char) : trim (body cs) = body cs := by
  unfold body
  split <;> rw [Text.trim_trim]

theorem Encloses.balanced {text body : List Char} (h : Encloses text body) (hbody : Balanced body) :
    Balanced text := by
  obtain ⟨sp, sp', mark, hsp, hsp', hmark, rfl⟩ := h
  have hm : Balanced mark := by
    rcases hmark with rfl | ⟨gap, hgap, rfl⟩
    · exact balanced_of_allBlank Text.allBlank_nil
    · exact (balanced_of_allBlank hgap).cons rfl
  exact (((balanced_of_allBlank hsp).append hm).append hbody).append (balanced_of_allBlank hsp')

/-- A text that is evaluated without sheet functions is blank and has the
empty value, or it renders a tree and has the value of the tree. Its
brackets are balanced. -/
theorem rendering_of_evaluate (r : Registry) (text : String) (v : Value)
    (h : Calculator.evaluate ⟨r, none⟩ text = .ok v) :
    Balanced text.toList ∧
      ((Encloses text.toList [] ∧ v = .empty) ∨
        ∃ cs e, Encloses text.toList cs ∧ Renders (liberal r) .comparison cs e ∧
          e.eval ⟨r, none⟩ = .ok v) := by
  have hencloses := encloses_body text.toList
  unfold Calculator.evaluate at h
  split at h
  · rename_i hnil
    cases h
    rw [hnil] at hencloses
    exact ⟨hencloses.balanced (balanced_of_noBrackets (by decide)), Or.inl ⟨hencloses, rfl⟩⟩
  · have hrenders := renders_of_evaluates (r := r) (free_comparison _) ⟨v, h⟩
    rw [trim_body] at hrenders
    exact ⟨hencloses.balanced hrenders.balanced, Or.inr ⟨_, _, hencloses, hrenders, h⟩⟩

/-- A registered function, a power, a sign, a comparison and a constant in mixed
case, after an equals sign and a tab. -/
theorem rendering_of_compared_product :
    Calculator.builtIn.evaluate "=\tmax(2, 4) - 1 ^ 5 * -3 >= Pi " = .ok (.bool true) ∧
      ∃ cs e, Encloses "=\tmax(2, 4) - 1 ^ 5 * -3 >= Pi ".toList cs ∧
        Renders (liberal Standard.registry) .comparison cs e ∧
        e.eval .builtIn = .ok (.bool true) := by
  have hvalue : Calculator.builtIn.evaluate "=\tmax(2, 4) - 1 ^ 5 * -3 >= Pi " =
      .ok (.bool true) := by decide +kernel
  rcases (rendering_of_evaluate Standard.registry _ _ hvalue).2 with ⟨-, hempty⟩ | hrendering
  · cases hempty
  · exact ⟨hvalue, hrendering⟩

end Worksheet.Expression
