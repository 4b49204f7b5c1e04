-- Every rendering that hides no sign is read as its tree, and the renderings
-- of the plain grammar hide none. A scan passes over the right operand, which
-- is quiet, and cuts at the operator between the operands; the scans for looser
-- operators pass over the whole text.
import Worksheet.Calculator
import Worksheet.Proofs.Expression.Plain

namespace Worksheet.Expression

open Text (trim)

/-! ## The operator between two operands -/

/-- Between operands the symbol of an operator is found, and all of it. -/
theorem operatorAt?_symbol (op : Operator) {b after : List Char}
    (hpos : isSignPosition b = false) (hexp : endsAtExponent b = false)
    (hb : ∀ x ∈ b.head?, leadsOperand x = false)
    (hafter : ∀ x ∈ after.head?, x ≠ '=' ∧ x ≠ '>') :
    ∃ c rest, op.symbol.toList.reverse = c :: rest ∧ weight c = 0 ∧
      operatorAt? op.precedence (rest ++ b) c after = some (op, b) := by
  cases b with
  | nil => cases hpos
  | cons p b =>
    have hp : ∀ x ∈ ['>', '<', '=', '!'], p ≠ x := by
      intro x hx hpx
      subst hpx
      have hall : ∀ y ∈ ['>', '<', '=', '!'], leadsOperand y = true := by decide
      have hno := hb p rfl
      rw [hall p hx] at hno
      cases hno
    have h1 := hp '>' (by decide)
    have h2 := hp '<' (by decide)
    have h3 := hp '=' (by decide)
    have h4 := hp '!' (by decide)
    have hsingle : ∀ c, (c = '>' ∨ c = '<') →
        singleComparison? (p :: b) c after = some (if c = '>' then .greater else .less) := by
      intro c hc
      unfold singleComparison?
      rw [if_pos hc]
      split
      · exact absurd rfl (hafter '=' rfl).1
      · exact absurd rfl (hafter '>' rfl).2
      · rfl
    rcases op with op | op
    · cases op with
      | plus => exact ⟨'+', [], rfl, rfl, by simp [Operator.precedence, operatorAt?, hexp]⟩
      | minus => exact ⟨'-', [], rfl, rfl, by simp [Operator.precedence, operatorAt?, hexp]⟩
      | times => exact ⟨'*', [], rfl, rfl, rfl⟩
      | divide => exact ⟨'/', [], rfl, rfl, rfl⟩
      | modulo => exact ⟨'%', [], rfl, rfl, rfl⟩
      | power => exact ⟨'^', [], rfl, rfl, rfl⟩
    · cases op with
      | greater =>
        refine ⟨'>', [], rfl, rfl, ?_⟩
        simp [Operator.precedence, operatorAt?, doubleComparison?, h2, hsingle]
      | less =>
        refine ⟨'<', [], rfl, rfl, ?_⟩
        simp [Operator.precedence, operatorAt?, doubleComparison?, hsingle]
      | equal =>
        refine ⟨'=', [], rfl, rfl, ?_⟩
        simp [Operator.precedence, operatorAt?, doubleComparison?, singleComparison?, h1, h2, h3,
          h4]
      | atLeast => exact ⟨'=', ['>'], rfl, rfl, rfl⟩
      | atMost => exact ⟨'=', ['<'], rfl, rfl, rfl⟩
      | doubleEqual => exact ⟨'=', ['='], rfl, rfl, rfl⟩
      | unequal => exact ⟨'>', ['<'], rfl, rfl, rfl⟩
      | notEqual => exact ⟨'=', ['!'], rfl, rfl, rfl⟩

theorem binaryAt?_symbol (op : Operator) {b after : List Char}
    (hpos : isSignPosition b = false) (hexp : endsAtExponent b = false)
    (hb : ∀ x ∈ b.head?, leadsOperand x = false)
    (hafter : ∀ x ∈ after.head?, x ≠ '=' ∧ x ≠ '>') :
    ∃ c rest, op.symbol.toList.reverse = c :: rest ∧ weight c = 0 ∧
      binaryAt? op.precedence (rest ++ b) c after = some (op, b) := by
  obtain ⟨c, rest, he, hw, hop⟩ := operatorAt?_symbol op hpos hexp hb hafter
  refine ⟨c, rest, he, hw, ?_⟩
  unfold binaryAt?
  rw [hop, Option.filter_some, hpos]
  rfl

/-! ## Two operands -/

variable {g : Grammar}

theorem Operand.startsBare {lvl : Level} {cs : List Char} (h : Operand lvl cs) :
    Text.StartsBare cs := by
  obtain ⟨c, rest, rfl, hc, -⟩ := h.first
  exact Text.startsBare_cons rest hc

theorem Operand.endsBare {lvl : Level} {cs : List Char} (h : Operand lvl cs) :
    Text.EndsBare cs := by
  obtain ⟨init, c, rfl, hc, -⟩ := h.last
  exact Text.endsBare_concat init hc

theorem Operand.trim {lvl : Level} {cs : List Char} (h : Operand lvl cs) : Text.trim cs = cs :=
  Text.trim_of_bare h.startsBare h.endsBare

theorem Operand.trim_between {lvl : Level} {cs sp sp' : List Char} (h : Operand lvl cs)
    (hsp : g.Spaces sp) (hsp' : g.Spaces sp') : Text.trim (sp ++ cs ++ sp') = cs := by
  rw [Text.trim_between hsp.allBlank hsp'.allBlank, h.trim]

theorem spaces_nil : g.Spaces [] := by
  intro c hc
  cases hc

/-- After an operand and spaces stands a binary operator. -/
theorem Operand.isSignPosition {lvl : Level} {l sp : List Char} (h : Operand lvl l)
    (hsp : g.Spaces sp) : isSignPosition (l ++ sp).reverse = false := by
  obtain ⟨init, c, he, hc, hlead⟩ := h.last
  have hne : c ≠ ' ' := by
    rintro rfl
    exact absurd hc (by decide)
  rw [List.reverse_append]
  apply isSignPosition_after_blanks hsp.allBlank.reverse
  rw [he, List.reverse_append, List.reverse_singleton, List.singleton_append,
    isSignPosition_cons _ hne, hlead]

theorem Operand.endsAtExponent {lvl : Level} {l sp : List Char} (h : Operand lvl l)
    (hsp : g.Spaces sp) : endsAtExponent (l ++ sp).reverse = false := by
  rcases List.eq_nil_or_concat sp with rfl | ⟨init, c, rfl⟩
  · have hending := h.ending [] rfl
    simpa using hending
  · rw [List.concat_eq_append, ← List.append_assoc, List.reverse_append, List.reverse_singleton,
      List.singleton_append]
    exact endsAtExponent_of_isBlank _ (hsp.allBlank c (by simp))

theorem Operand.head?_reverse {lvl : Level} {l sp : List Char} (h : Operand lvl l)
    (hsp : g.Spaces sp) : ∀ x ∈ (l ++ sp).reverse.head?, leadsOperand x = false := by
  rcases List.eq_nil_or_concat sp with rfl | ⟨init, c, rfl⟩
  · obtain ⟨init, c, he, -, hlead⟩ := h.last
    intro x hx
    rw [List.append_nil, he, List.reverse_append, List.reverse_singleton, List.singleton_append,
      List.head?_cons, Option.mem_def, Option.some.injEq] at hx
    exact hx ▸ hlead
  · have hc := hsp.allBlank c (by simp)
    intro x hx
    rw [List.concat_eq_append, ← List.append_assoc, List.reverse_append, List.reverse_singleton,
      List.singleton_append, List.head?_cons, Option.mem_def, Option.some.injEq] at hx
    exact hx ▸ leadsOperand_of_isBlank hc

theorem Operand.head? {lvl : Level} {r sp : List Char} (h : Operand lvl r)
    (hsp : g.Spaces sp) : ∀ x ∈ (sp ++ r).head?, x ≠ '=' ∧ x ≠ '>' := by
  intro x hx
  cases sp with
  | nil =>
    obtain ⟨c, rest, he, -, heq, hgt, -⟩ := h.first
    rw [List.nil_append, he, List.head?_cons, Option.mem_def, Option.some.injEq] at hx
    exact hx ▸ ⟨heq, hgt⟩
  | cons c sp =>
    have hc := hsp.allBlank c (by simp)
    rw [List.cons_append, List.head?_cons, Option.mem_def, Option.some.injEq] at hx
    subst hx
    constructor
    · rintro rfl
      exact absurd hc (by decide)
    · rintro rfl
      exact absurd hc (by decide)

/-- At the symbol between two operands, the text is cut. -/
theorem exists_cut (op : Operator) {lvl lvl' : Level} {l sp sp' r : List Char}
    (hl : Operand lvl l) (hr : Operand lvl' r) (hsp : g.Spaces sp) (hsp' : g.Spaces sp') :
    ∃ c rest, op.symbol.toList.reverse = c :: rest ∧ weight c = 0 ∧
      cutHere? op.precedence (rest ++ (l ++ sp).reverse) c (sp' ++ r) = some ⟨l, op, r⟩ := by
  obtain ⟨c, rest, he, hw, hb⟩ := binaryAt?_symbol op (hl.isSignPosition hsp)
    (hl.endsAtExponent hsp) (hl.head?_reverse hsp) (hr.head? hsp')
  have hleft : trim (l ++ sp).reverse.reverse = l := by
    rw [List.reverse_reverse]
    exact hl.trim_between spaces_nil hsp
  have hright : trim (sp' ++ r) = r := by
    have := hr.trim_between hsp' spaces_nil
    rwa [List.append_nil] at this
  have hs := splitAt?_of_ne_nil op (by rw [hleft]; exact hl.ne_nil)
    (by rw [hright]; exact hr.ne_nil)
  rw [hleft, hright] at hs
  refine ⟨c, rest, he, hw, ?_⟩
  unfold cutHere?
  rw [hb, Option.bind_some, hs]

theorem lastSplit?_symbol (op : Operator) {lvl lvl' : Level} {l sp sp' r : List Char}
    (hl : Operand lvl l) (hr : Operand lvl' r) (hsp : g.Spaces sp) (hsp' : g.Spaces sp') :
    lastSplit? op.precedence (op.symbol.toList.reverse ++ (l ++ sp).reverse) (sp' ++ r) 0 =
      some ⟨l, op, r⟩ := by
  obtain ⟨c, rest, he, hw, hcut⟩ := exists_cut op hl hr hsp hsp'
  rw [he, List.cons_append, lastSplit?_step, if_pos ⟨hw, rfl⟩, hcut, Option.some_or]

/-! ## The cut of a binary operation -/

variable [g.Legible] {op : Operator} {l sp sp' r : List Char} {a b : Expression}

/-- The scan for its own class cuts a sum, a product or a comparison. -/
theorem lastSplit?_binary (hsp : g.Spaces sp) (hsp' : g.Spaces sp')
    (hl : Renders g op.precedence.leftLevel l a)
    (hr : Renders g op.precedence.rightLevel r b)
    (hclear : ¬ HidesSign (l ++ sp ++ op.symbol.toList ++ (sp' ++ r)))
    (htight : op.precedence.level.rank < op.precedence.rightLevel.rank) :
    lastSplit? op.precedence (l ++ sp ++ op.symbol.toList ++ (sp' ++ r)).reverse [] 0 =
      some ⟨l, op, r⟩ := by
  have hright : ¬ HidesSign r :=
    fun hhides => hclear (hhides.mono ⟨l ++ sp ++ op.symbol.toList ++ sp', [], by simp⟩)
  have hquiet : Quiet op.precedence 0 (op.symbol.toList.reverse ++ (l ++ sp).reverse)
      (sp' ++ r) := by
    unfold Quiet
    rw [outside_append_of_balanced hsp'.balanced]
    refine ⟨quiet_spaces hsp'.allBlank, hr.quiet hright htight _ fun hadd hsign => ?_⟩
    have hspaces := spaces_after_symbol (by rw [hadd]; decide) hclear hsp'.allBlank hsign
    have hpos := isSignPosition_after_symbol op hspaces (l ++ sp) []
    rw [List.append_nil, List.reverse_append, List.reverse_append] at hpos
    exact hpos
  have hscan := lastSplit?_append_of_quiet [] hquiet
  rw [net_append, hsp'.balanced.settled, hr.balanced.settled, List.append_nil] at hscan
  have hshape : (l ++ sp ++ op.symbol.toList ++ (sp' ++ r)).reverse =
      (sp' ++ r).reverse ++ (op.symbol.toList.reverse ++ (l ++ sp).reverse) := by
    simp only [List.reverse_append]
  rw [hshape]
  exact hscan.trans (lastSplit?_symbol op hl.operand hr.operand hsp hsp')

/-- The scan for powers cuts a power. -/
theorem firstPower?_binary (hop : op.precedence = .power) (hsp : g.Spaces sp)
    (hsp' : g.Spaces sp') (hl : Renders g .primary l a) (hr : Renders g .signed r b)
    (hleft : ¬ HidesSign l) :
    firstPower? [] (l ++ sp ++ op.symbol.toList ++ (sp' ++ r)) 0 = some ⟨l, op, r⟩ := by
  obtain ⟨c, rest, he, hw, hcut⟩ := exists_cut op hl.operand hr.operand hsp hsp'
  have hsymbol : op.symbol.toList = [c] ∧ rest = [] := by
    rcases op with op | op
    · cases op with
      | power =>
        cases he
        exact ⟨rfl, rfl⟩
      | plus | minus | times | divide | modulo => cases hop
    · cases hop
  obtain ⟨hsymbol, rfl⟩ := hsymbol
  have hquiet : Quiet .power 0 [] (l ++ sp) := by
    unfold Quiet
    rw [outside_append_of_balanced hl.balanced]
    exact ⟨hl.quiet hleft (by decide) [] fun _ _ => rfl, quiet_spaces hsp.allBlank⟩
  have hsign : beginsWithSign (trim (l ++ sp).reverse.reverse) = false := by
    have htrim := hl.operand.trim_between spaces_nil hsp
    obtain ⟨x, t, hx, -, -, -, hno⟩ := hl.operand.first
    obtain ⟨hplus, hminus⟩ := hno (by decide)
    rw [List.nil_append] at htrim
    rw [List.reverse_reverse, htrim, hx]
    exact beginsWithSign_cons_eq_false t hplus hminus
  have hscan := firstPower?_append_of_quiet (op.symbol.toList ++ (sp' ++ r)) hquiet
  rw [← List.append_assoc, net_append, hl.balanced.settled, hsp.balanced.settled,
    List.append_nil] at hscan
  rw [hop, List.nil_append] at hcut
  rw [hscan, hsymbol, List.singleton_append, firstPower?_step _ _ _ hsign, if_pos ⟨hw, rfl⟩, hcut,
    Option.some_or]

theorem lastSplit?_looser (cls : Precedence) {lvl : Level} {cs : List Char} {e : Expression}
    (h : Renders g lvl cs e) (hclear : ¬ HidesSign cs) (hcls : cls.level.rank < lvl.rank) :
    lastSplit? cls cs.reverse [] 0 = none :=
  lastSplit?_eq_none (h.quiet hclear hcls [] fun _ _ => rfl) h.balanced.settled

/-- A binary operation is cut at its operator. -/
theorem split?_binary (hsp : g.Spaces sp) (hsp' : g.Spaces sp')
    (hl : Renders g op.precedence.leftLevel l a)
    (hr : Renders g op.precedence.rightLevel r b)
    (hclear : ¬ HidesSign (l ++ sp ++ op.symbol.toList ++ (sp' ++ r))) :
    split? (l ++ sp ++ op.symbol.toList ++ (sp' ++ r)) = some ⟨l, op, r⟩ := by
  have hwhole := Renders.binary op hsp hsp' hl hr
  have hleft : ¬ HidesSign l := fun hhides => hclear (hhides.mono ⟨[], _, by simp; rfl⟩)
  unfold split?
  cases hop : op.precedence with
  | comparison =>
    have hcut := lastSplit?_binary hsp hsp' hl hr hclear (by rw [hop]; decide)
    rw [hop] at hcut
    rw [hcut]
  | additive =>
    have hcut := lastSplit?_binary hsp hsp' hl hr hclear (by rw [hop]; decide)
    rw [hop] at hcut
    rw [lastSplit?_looser .comparison hwhole hclear (by rw [hop]; decide), hcut]
  | multiplicative =>
    have hcut := lastSplit?_binary hsp hsp' hl hr hclear (by rw [hop]; decide)
    rw [hop] at hcut
    rw [lastSplit?_looser .comparison hwhole hclear (by rw [hop]; decide),
      lastSplit?_looser .additive hwhole hclear (by rw [hop]; decide), hcut]
  | power =>
    rw [hop] at hl hr
    rw [lastSplit?_looser .comparison hwhole hclear (by rw [hop]; decide),
      lastSplit?_looser .additive hwhole hclear (by rw [hop]; decide),
      lastSplit?_looser .multiplicative hwhole hclear (by rw [hop]; decide)]
    exact firstPower?_binary hop hsp hsp' hl hr hleft

/-! ## Reading a rendering -/

/-- Blanks around a text do not matter for its tree. -/
theorem parse_between {sp sp' : List Char} (hsp : Text.AllBlank sp) (hsp' : Text.AllBlank sp')
    (cs : List Char) : parse (sp ++ cs ++ sp') = parse cs := by
  rw [parse_eq, Text.trim_between hsp hsp', ← parse_eq]

theorem parse_after {sp : List Char} (hsp : Text.AllBlank sp) (cs : List Char) :
    parse (sp ++ cs) = parse cs := by
  have h := parse_between hsp Text.allBlank_nil cs
  rwa [List.append_nil] at h

theorem parse_trim (cs : List Char) : parse (trim cs) = parse cs := by
  rw [parse_eq, parse_eq cs, Text.trim_trim]

/-- A primary is not cut. -/
theorem split?_primary {cs : List Char} {e : Expression} (h : Renders g .primary cs e)
    (hclear : ¬ HidesSign cs) : split? cs = none := by
  unfold split?
  rw [lastSplit?_looser .comparison h hclear (by decide),
    lastSplit?_looser .additive h hclear (by decide),
    lastSplit?_looser .multiplicative h hclear (by decide)]
  exact firstPower?_eq_none (h.quiet hclear (by decide) [] fun _ _ => rfl)

/-- A text with a sign in front is not cut. -/
theorem split?_signed {cs : List Char} {c : Char} {e : Expression}
    (h : Renders g .signed (c :: cs) e) (hclear : ¬ HidesSign (c :: cs)) (hc : c = '+' ∨ c = '-') :
    split? (c :: cs) = none := by
  unfold split?
  rw [lastSplit?_looser .comparison h hclear (by decide),
    lastSplit?_looser .additive h hclear (by decide),
    lastSplit?_looser .multiplicative h hclear (by decide)]
  exact firstPower?_eq_none_of_sign hc cs

theorem Word.not_hidesSign {cs : List Char} (h : Word cs) : ¬ HidesSign cs := by
  rintro ⟨y, sp, x, -, hsp, ⟨b, hb, -⟩, -, hin⟩
  have hbare := (h.writes b (hin.subset (by simp [hb]))).1
  rw [hsp b hb] at hbare
  cases hbare

theorem parse_leaf {cs : List Char} {e : Expression} (h : g.leaf cs e) : parse cs = e := by
  have hword : Word cs := Grammar.Legible.word h
  have hsplit := split?_primary (Renders.leaf h) hword.not_hidesSign
  have hopen : '(' ∉ cs := fun hc => (hword.writes '(' hc).2 (by decide)
  have hcall := callOf?_eq_none hopen
  have hleaf : leaf cs = e := Grammar.Legible.leaf h
  obtain ⟨c, rest, he, hplus, hminus⟩ := hword.first
  have htrim := hword.trim
  subst he
  have hc : c ≠ '(' := by
    rintro rfl
    exact hopen (by simp)
  rw [parse_eq, htrim]
  dsimp only
  rw [hsplit]
  dsimp only
  rw [if_neg hc, hcall]
  dsimp only
  rw [if_neg hminus, if_neg hplus, hleaf]

/-- In a group the bracket that opens it is the one place outside brackets. -/
theorem quiet_group (cls : Precedence) {cs : List Char} (h : Balanced cs) :
    Quiet cls 0 [] ('(' :: (cs ++ [')'])) :=
  outside_group h not_takes_opening

/-- A group is cut at no operator. -/
theorem split?_group {cs : List Char} (h : Balanced cs) :
    split? ('(' :: (cs ++ [')'])) = none := by
  have hscan : ∀ cls, lastSplit? cls ('(' :: (cs ++ [')'])).reverse [] 0 = none :=
    fun cls => lastSplit?_eq_none (quiet_group cls h) h.group.settled
  unfold split?
  rw [hscan, hscan, hscan]
  exact firstPower?_eq_none (quiet_group .power h)

theorem trim_group (cs : List Char) : trim ('(' :: (cs ++ [')'])) = '(' :: (cs ++ [')']) :=
  Text.trim_of_bare (Text.startsBare_cons _ (by decide))
    (Text.endsBare_concat ('(' :: cs) (by decide))

/-- The tree of a group is that of the text between its brackets. -/
theorem parse_group {cs : List Char} (h : Balanced cs) :
    parse ('(' :: (cs ++ [')'])) = parse cs := by
  rw [parse_eq, trim_group]
  dsimp only
  rw [split?_group h]
  dsimp only
  rw [if_pos rfl, group?_of_balanced h]

theorem parse_call {name sp args : List Char} {e : Expression} (hname : IsName name)
    (hsp : g.Spaces sp) (hargs : Balanced args)
    (h : Renders g .primary (name ++ sp ++ '(' :: (args ++ [')'])) e)
    (hclear : ¬ HidesSign (name ++ sp ++ '(' :: (args ++ [')']))) :
    parse (name ++ sp ++ '(' :: (args ++ [')'])) =
      .call (String.ofList name) ((arguments args).map parse) := by
  have hcall := callOf?_call hname hsp.allBlank hargs
  have hsplit := split?_primary h hclear
  have htrim := h.operand.trim
  obtain ⟨c, rest, rfl, hstart, -⟩ := hname
  have hc : c ≠ '(' := by
    rintro rfl
    exact absurd hstart (by decide)
  rw [List.cons_append, List.cons_append] at *
  rw [parse_eq, htrim]
  dsimp only
  rw [hsplit]
  dsimp only
  rw [if_neg hc, hcall]

theorem parse_binary {op : Operator} {l sp sp' r : List Char} {a b : Expression}
    (hsp : g.Spaces sp) (hsp' : g.Spaces sp')
    (hl : Renders g op.precedence.leftLevel l a)
    (hr : Renders g op.precedence.rightLevel r b)
    (hclear : ¬ HidesSign (l ++ sp ++ op.symbol.toList ++ (sp' ++ r))) :
    parse (l ++ sp ++ op.symbol.toList ++ (sp' ++ r)) = .binary op (parse l) (parse r) := by
  have hwhole := Renders.binary op hsp hsp' hl hr
  have hsplit := split?_binary hsp hsp' hl hr hclear
  have htrim := hwhole.operand.trim
  obtain ⟨c, rest, he, -⟩ := hwhole.operand.first
  rw [he] at htrim hsplit ⊢
  rw [parse_eq, htrim]
  dsimp only
  rw [hsplit]

theorem parse_negative {cs : List Char} {e : Expression}
    (h : Renders g .signed ('-' :: cs) e) (hclear : ¬ HidesSign ('-' :: cs)) :
    parse ('-' :: cs) = .negative (parse cs) := by
  rw [parse_eq, h.operand.trim]
  dsimp only
  rw [split?_signed h hclear (Or.inr rfl)]
  dsimp only
  rw [if_neg (by decide), callOf?_cons_eq_none cs (by decide)]
  dsimp only
  rw [if_pos rfl]

theorem parse_positive {cs : List Char} {e : Expression}
    (h : Renders g .signed ('+' :: cs) e) (hclear : ¬ HidesSign ('+' :: cs)) :
    parse ('+' :: cs) = .positive (parse cs) := by
  rw [parse_eq, h.operand.trim]
  dsimp only
  rw [split?_signed h hclear (Or.inl rfl)]
  dsimp only
  rw [if_neg (by decide), callOf?_cons_eq_none cs (by decide)]
  dsimp only
  rw [if_neg (by decide), if_pos rfl]

/-- The argument texts of a call with arguments. -/
theorem arguments_writtenAll {args : List Argument} (hne : args ≠ [])
    (hspaces : ∀ a ∈ args, g.Spaces a.before ∧ g.Spaces a.after)
    (hargs : ∀ a ∈ args, Renders g .comparison a.text a.tree) :
    arguments (writtenAll args) = args.map Argument.written := by
  have hcut : cutArguments 0 (writtenAll args) = args.map Argument.written := by
    apply cutArguments_intercalate (by simpa using hne) (balanced_written hspaces hargs)
    intro t ht
    obtain ⟨a, ha, rfl⟩ := List.mem_map.mp ht
    obtain ⟨hbefore, hafter⟩ := hspaces a ha
    have hr := hargs a ha
    exact noOuterComma_append (hbefore.balanced.append hr.balanced)
      (noOuterComma_append hbefore.balanced (noOuterComma_spaces hbefore) hr.noOuterComma)
      (noOuterComma_spaces hafter)
  have hblank : Text.isEmptyOrBlank (writtenAll args) = false := by
    obtain ⟨a, rest, rfl⟩ := List.exists_cons_of_ne_nil hne
    obtain ⟨c, t, he, hc, -⟩ := (hargs a (by simp)).operand.first
    have hmem : c ∈ writtenAll (a :: rest) := by
      have hin : c ∈ a.written := by
        unfold Argument.written
        rw [he]
        simp
      unfold writtenAll
      cases rest with
      | nil => simpa using hin
      | cons b rest => simp [List.intercalate, hin]
    unfold Text.isEmptyOrBlank
    rw [List.all_eq_false]
    exact ⟨c, hmem, by simp [hc]⟩
  unfold arguments
  rw [hblank, hcut]
  rfl

theorem infix_intercalate {pieces : List (List Char)} {p : List Char} (h : p ∈ pieces) :
    p <:+: [','].intercalate pieces := by
  induction pieces with
  | nil => cases h
  | cons q rest ih =>
    cases rest with
    | nil =>
      obtain rfl := List.mem_singleton.mp h
      exact ⟨[], [], by simp⟩
    | cons t rest =>
      rcases List.mem_cons.mp h with rfl | h
      · exact ⟨[], ',' :: [','].intercalate (t :: rest), by simp [List.intercalate]⟩
      · refine (ih h).trans ⟨q ++ [','], [], by simp [List.intercalate]⟩

/-- The text of an argument is part of the call. -/
theorem infix_call {args : List Argument} {front : List Char} {arg : Argument} (h : arg ∈ args) :
    arg.text <:+: front ++ '(' :: (writtenAll args ++ [')']) := by
  have hwritten : arg.written <:+: writtenAll args := infix_intercalate (List.mem_map_of_mem h)
  have htext : arg.text <:+: arg.written := ⟨arg.before, arg.after, rfl⟩
  exact (htext.trans hwritten).trans ⟨front ++ ['('], [')'], by simp⟩

/-- A rendering that hides no sign is read as its tree. -/
theorem parse_of_clear_renders {lvl : Level} {cs : List Char} {e : Expression}
    (h : Renders g lvl cs e) (hclear : ¬ HidesSign cs) : parse cs = e := by
  induction h with
  | leaf h => exact parse_leaf h
  | @group sp sp' cs e hsp hsp' hr ih =>
    have hinside : ¬ HidesSign cs :=
      fun hhides => hclear (hhides.mono ⟨'(' :: sp, sp' ++ [')'], by simp⟩)
    rw [parse_group ((hsp.balanced.append hr.balanced).append hsp'.balanced),
      parse_between hsp.allBlank hsp'.allBlank, ih hinside]
  | @emptyCall name sp sp' hname hsp hsp' =>
    have hblank : arguments sp' = [] := by
      unfold arguments
      exact if_pos (List.all_eq_true.mpr hsp'.allBlank)
    rw [parse_call (g.isName_of_name _ hname) hsp hsp'.balanced (Renders.emptyCall hname hsp hsp')
      hclear, hblank]
    rfl
  | @call name sp args hname hsp hne hspaces hargs ih =>
    rw [parse_call (g.isName_of_name _ hname) hsp (balanced_writtenAll hspaces hargs)
      (Renders.call hname hsp hne hspaces hargs) hclear, arguments_writtenAll hne hspaces hargs,
      List.map_map]
    congr 1
    apply List.map_congr_left
    intro a ha
    obtain ⟨hbefore, hafter⟩ := hspaces a ha
    have hargument : ¬ HidesSign a.text := fun hhides => hclear (hhides.mono (infix_call ha))
    exact (parse_between hbefore.allBlank hafter.allBlank a.text).trans (ih a ha hargument)
  | @negative sp cs e hsp hr ih =>
    have hrest : ¬ HidesSign cs := fun hhides => hclear (hhides.mono ⟨'-' :: sp, [], by simp⟩)
    rw [parse_negative (Renders.negative hsp hr) hclear, parse_after hsp.allBlank, ih hrest]
  | @positive sp cs e hsp hr ih =>
    have hrest : ¬ HidesSign cs := fun hhides => hclear (hhides.mono ⟨'+' :: sp, [], by simp⟩)
    rw [parse_positive (Renders.positive hsp hr) hclear, parse_after hsp.allBlank, ih hrest]
  | @binary op l r sp sp' a b hsp hsp' hl hr ihl ihr =>
    have hleft : ¬ HidesSign l := fun hhides => hclear (hhides.mono ⟨[], _, by simp; rfl⟩)
    have hright : ¬ HidesSign r :=
      fun hhides => hclear (hhides.mono ⟨l ++ sp ++ op.symbol.toList ++ sp', [], by simp⟩)
    rw [parse_binary hsp hsp' hl hr hclear, ihl hleft, ihr hright]
  | loosen _ _ ih => exact ih hclear

/-! ## The plain grammar -/

theorem forall_mem_intercalate {p : Char → Prop} {pieces : List (List Char)} (hcomma : p ',')
    (h : ∀ t ∈ pieces, ∀ c ∈ t, p c) : ∀ c ∈ [','].intercalate pieces, p c := by
  induction pieces with
  | nil => simp
  | cons t rest ih =>
    rw [List.forall_mem_cons] at h
    cases rest with
    | nil => simpa using h.1
    | cons q rest =>
      rw [List.intercalate_cons_cons, List.forall_mem_append, List.forall_mem_append]
      exact ⟨⟨h.1, by simpa using hcomma⟩, ih h.2⟩

/-- The blanks of a rendering are spaces of the grammar. -/
theorem Renders.space_of_isBlank {lvl : Level} {cs : List Char} {e : Expression}
    (h : Renders g lvl cs e) : ∀ c ∈ cs, Text.isBlank c = true → g.space c = true := by
  have hspaces : ∀ {sp : List Char}, g.Spaces sp →
      ∀ c ∈ sp, Text.isBlank c = true → g.space c = true := fun hsp c hc _ => hsp c hc
  have hbare : ∀ {cs : List Char}, (∀ c ∈ cs, Text.isBlank c = false) →
      ∀ c ∈ cs, Text.isBlank c = true → g.space c = true := by
    intro cs hcs c hc hblank
    rw [hcs c hc] at hblank
    cases hblank
  have hname : ∀ {name : List Char}, g.name name →
      ∀ c ∈ name, Text.isBlank c = true → g.space c = true := fun hname =>
    hbare fun c hc => isBlank_of_isNamePart ((g.isName_of_name _ hname).isNamePart c hc)
  have hopen : ∀ c ∈ ['('], Text.isBlank c = true → g.space c = true := hbare (by decide)
  have hclose : ∀ c ∈ [')'], Text.isBlank c = true → g.space c = true := hbare (by decide)
  induction h with
  | leaf h => exact hbare fun c hc => ((Grammar.Legible.word h).writes c hc).1
  | @group sp sp' cs e hsp hsp' _ ih =>
    rw [← List.singleton_append]
    simp only [List.forall_mem_append]
    exact ⟨hopen, ⟨⟨hspaces hsp, ih⟩, hspaces hsp'⟩, hclose⟩
  | @emptyCall name sp sp' hn hsp hsp' =>
    rw [← List.singleton_append]
    simp only [List.forall_mem_append]
    exact ⟨⟨hname hn, hspaces hsp⟩, hopen, hspaces hsp', hclose⟩
  | @call name sp args hn hsp _ hargspaces _ ih =>
    rw [← List.singleton_append]
    simp only [List.forall_mem_append]
    refine ⟨⟨hname hn, hspaces hsp⟩, hopen, ?_, hclose⟩
    refine forall_mem_intercalate (fun hcomma => absurd hcomma (by decide)) fun t ht => ?_
    obtain ⟨a, ha, rfl⟩ := List.mem_map.mp ht
    obtain ⟨hbefore, hafter⟩ := hargspaces a ha
    unfold Argument.written
    simp only [List.forall_mem_append]
    exact ⟨⟨hspaces hbefore, ih a ha⟩, hspaces hafter⟩
  | @negative sp cs e hsp _ ih =>
    rw [← List.singleton_append]
    simp only [List.forall_mem_append]
    exact ⟨hbare (by decide), hspaces hsp, ih⟩
  | @positive sp cs e hsp _ ih =>
    rw [← List.singleton_append]
    simp only [List.forall_mem_append]
    exact ⟨hbare (by decide), hspaces hsp, ih⟩
  | binary op hsp hsp' _ _ ihl ihr =>
    simp only [List.forall_mem_append]
    exact ⟨⟨⟨ihl, hspaces hsp⟩, hbare (isBlank_symbol op)⟩, hspaces hsp', ihr⟩
  | loosen _ _ ih => exact ih

/-- With ASCII spaces alone no sign is hidden. -/
theorem Renders.not_hidesSign {lvl : Level} {cs : List Char} {e : Expression}
    (h : Renders plain lvl cs e) : ¬ HidesSign cs := by
  rintro ⟨y, sp, x, -, hsp, ⟨b, hb, hother⟩, -, hin⟩
  have hspace := h.space_of_isBlank b (hin.subset (by simp [hb])) (hsp b hb)
  exact hother (by simpa [plain] using hspace)

/-- A rendering of the plain grammar is read as its tree. -/
theorem parse_of_renders {lvl : Level} {cs : List Char} {e : Expression}
    (h : Renders plain lvl cs e) : parse cs = e :=
  parse_of_clear_renders h h.not_hidesSign

/-! ## Every tree is written somehow -/

/-- The trees of literals, constants, signs, operators and calls. -/
inductive Written : Expression → Prop
  | number (l : Literal) : Written (.number l.number)
  | constant (k : Constant) : Written (.constant k)
  | negative {e : Expression} : Written e → Written (.negative e)
  | positive {e : Expression} : Written e → Written (.positive e)
  | binary (op : Operator) {a b : Expression} : Written a → Written b → Written (.binary op a b)
  | call {name : List Char} {args : List Expression} :
      IsName name → (∀ e ∈ args, Written e) → Written (.call (String.ofList name) args)

theorem renders_ofNat {n : Nat} (h : n < exponentBound) :
    Renders plain .primary (Nat.toDigits 10 n) (.number (.int n)) := by
  have hleaf := Renders.leaf (g := plain) (.number (Literal.ofNat n))
  rwa [Literal.text_ofNat, Literal.number_ofNat h] at hleaf

theorem written_ofNat {n : Nat} (h : n < exponentBound) : Written (.number (.int n)) := by
  have hnumber := Written.number (Literal.ofNat n)
  rwa [Literal.number_ofNat h] at hnumber

theorem spells_name (k : Constant) : Spells k k.name.toList := by
  unfold Spells
  cases k <;> decide

/-- A text of any level in brackets. -/
theorem Renders.bracketed {lvl : Level} {cs : List Char} {e : Expression}
    (h : Renders plain lvl cs e) : Renders plain .primary ('(' :: (cs ++ [')'])) e := by
  have hgroup := Renders.group spaces_nil spaces_nil
    (Renders.loosen (Nat.zero_le _) h)
  simpa using hgroup

theorem Renders.of_primary {cs : List Char} {e : Expression} (h : Renders plain .primary cs e)
    (lvl : Level) : Renders plain lvl cs e := by
  refine Renders.loosen ?_ h
  cases lvl <;> decide

theorem exists_arguments {args : List Expression}
    (h : ∀ e ∈ args, ∃ cs, Renders plain .primary cs e) :
    ∃ l : List Argument, l.map Argument.tree = args ∧
      (∀ a ∈ l, plain.Spaces a.before ∧ plain.Spaces a.after) ∧
      ∀ a ∈ l, Renders plain .comparison a.text a.tree := by
  induction args with
  | nil => exact ⟨[], rfl, by simp, by simp⟩
  | cons e rest ih =>
    obtain ⟨l, hl, hspaces, hrenders⟩ := ih fun x hx => h x (List.mem_cons_of_mem e hx)
    obtain ⟨cs, hcs⟩ := h e (by simp)
    refine ⟨⟨[], cs, [], e⟩ :: l, by rw [List.map_cons, hl], ?_, ?_⟩
    · rw [List.forall_mem_cons]
      exact ⟨⟨spaces_nil, spaces_nil⟩, hspaces⟩
    · rw [List.forall_mem_cons]
      exact ⟨hcs.of_primary .comparison, hrenders⟩

/-- With brackets around every operation, every tree has a text. -/
theorem Written.exists_renders {e : Expression} (h : Written e) :
    ∃ cs, Renders plain .primary cs e := by
  induction h with
  | number l => exact ⟨l.text, Renders.leaf (g := plain) (.number l)⟩
  | constant k => exact ⟨k.name.toList, Renders.leaf (g := plain) (.constant (spells_name k))⟩
  | negative _ ih =>
    obtain ⟨cs, hcs⟩ := ih
    exact ⟨_, (Renders.negative spaces_nil (hcs.of_primary .signed)).bracketed⟩
  | positive _ ih =>
    obtain ⟨cs, hcs⟩ := ih
    exact ⟨_, (Renders.positive spaces_nil (hcs.of_primary .signed)).bracketed⟩
  | binary op _ _ iha ihb =>
    obtain ⟨l, hl⟩ := iha
    obtain ⟨r, hr⟩ := ihb
    exact ⟨_, (Renders.binary op spaces_nil spaces_nil (hl.of_primary _)
      (hr.of_primary _)).bracketed⟩
  | @call name args hname _ ih =>
    obtain ⟨l, hl, hspaces, hrenders⟩ := exists_arguments ih
    subst hl
    by_cases hne : l = []
    · subst hne
      exact ⟨_, Renders.emptyCall (g := plain) hname spaces_nil spaces_nil⟩
    · exact ⟨_, Renders.call (g := plain) hname spaces_nil hne hspaces hrenders⟩

/-! ## The value of a rendering -/

/-- A text of the plain grammar renders one tree. -/
theorem Renders.unique {lvl lvl' : Level} {cs : List Char} {e e' : Expression}
    (h : Renders plain lvl cs e) (h' : Renders plain lvl' cs e') : e = e' :=
  (parse_of_renders h).symm.trans (parse_of_renders h')

theorem body_of_renders {lvl : Level} {cs sp sp' : List Char} {e : Expression}
    (h : Renders plain lvl cs e) (hsp : plain.Spaces sp) (hsp' : plain.Spaces sp') :
    body (sp ++ cs ++ sp') = cs := by
  unfold body
  rw [h.operand.trim_between hsp hsp']
  obtain ⟨c, rest, he, -, heq, -⟩ := h.operand.first
  split
  · exact absurd (List.cons.inj he).1.symm heq
  · rfl

theorem evaluate_of_renders (c : Calculator) {lvl : Level} {cs sp sp' : List Char}
    {e : Expression} (h : Renders plain lvl cs e) (hsp : plain.Spaces sp)
    (hsp' : plain.Spaces sp') : c.evaluate (String.ofList (sp ++ cs ++ sp')) = e.eval c := by
  have hparse := parse_of_renders h
  unfold Calculator.evaluate
  rw [String.toList_ofList, body_of_renders h hsp hsp']
  obtain ⟨x, rest, he⟩ := List.exists_cons_of_ne_nil h.operand.ne_nil
  rw [he] at hparse ⊢
  dsimp only
  rw [hparse]

/-- Every tree has a rendering, and every rendering of a tree, with any
spaces around it, is read as this tree and has its value. -/
theorem evaluate_of_written (c : Calculator) (e : Expression) (h : Written e) :
    (∃ cs, Renders plain .comparison cs e) ∧
      ∀ (lvl : Level) (cs sp sp' : List Char), Renders plain lvl cs e →
        plain.Spaces sp → plain.Spaces sp' →
        parse (sp ++ cs ++ sp') = e ∧
          c.evaluate (String.ofList (sp ++ cs ++ sp')) = e.eval c := by
  constructor
  · obtain ⟨cs, hcs⟩ := h.exists_renders
    exact ⟨cs, hcs.of_primary .comparison⟩
  · intro lvl cs sp sp' hr hsp hsp'
    exact ⟨(parse_between hsp.allBlank hsp'.allBlank cs).trans (parse_of_renders hr),
      evaluate_of_renders c hr hsp hsp'⟩

/-- A library that finds the median of one, three and two. -/
def medianLibrary : SheetLibrary := fun formula =>
  if formula = "=MEDIAN(1,3,2)" then some (.single (.double (Double.ofInt 2))) else none

/-- A sheet function, a power, a sign, a registered function, and a constant in
mixed case. -/
theorem evaluate_median_less_product :
    let tree : Expression :=
      .binary (.comparison .greater)
        (.binary (.arithmetic .minus)
          (.call "median" [.number (.int 1), .number (.int 3), .number (.int 2)])
          (.binary (.arithmetic .times)
            (.binary (.arithmetic .power) (.number (.int 1)) (.number (.int 5)))
            (.negative (.call "max" [.number (.int 2), .number (.int 4)]))))
        (.constant .pi)
    Written tree ∧
      (Calculator.standard medianLibrary).evaluate "median(1, 3,2) - 1 ^ 5*-max(2,4) > Pi " =
        .ok (.bool true) := by
  intro tree
  have hmedian : IsName "median".toList := ⟨'m', "edian".toList, rfl, by decide, by decide⟩
  have hmax : IsName "max".toList := ⟨'m', "ax".toList, rfl, by decide, by decide⟩
  have hdigit : ∀ n : Nat, n < 10 → Written (.number (.int n)) := fun n hn =>
    written_ofNat (Nat.lt_trans hn (by decide))
  have hwritten : Written tree := by
    refine .binary _ (.binary _ (.call hmedian ?_)
      (.binary _ (.binary _ (hdigit 1 (by decide)) (hdigit 5 (by decide)))
        (.negative (.call hmax ?_)))) (.constant .pi)
    · rw [List.forall_mem_cons, List.forall_mem_cons, List.forall_mem_singleton]
      exact ⟨hdigit 1 (by decide), hdigit 3 (by decide), hdigit 2 (by decide)⟩
    · rw [List.forall_mem_cons, List.forall_mem_singleton]
      exact ⟨hdigit 2 (by decide), hdigit 4 (by decide)⟩
  have hrenders : ∀ (n : Nat) (lvl : Level), n < 10 →
      Renders plain lvl (Nat.toDigits 10 n) (.number (.int n)) := fun n lvl hn =>
    (renders_ofNat (Nat.lt_trans hn (by decide))).of_primary lvl
  have hspace : plain.Spaces [' '] := by decide
  have hfirst : Renders plain .primary "median(1, 3,2)".toList
      (.call "median" [.number (.int 1), .number (.int 3), .number (.int 2)]) := by
    refine @Renders.call plain _ [] [⟨[], ['1'], [], .number (.int 1)⟩,
      ⟨[' '], ['3'], [], .number (.int 3)⟩, ⟨[], ['2'], [], .number (.int 2)⟩] hmedian spaces_nil
      (by simp) (by simp [spaces_nil, hspace]) ?_
    rw [List.forall_mem_cons, List.forall_mem_cons, List.forall_mem_singleton]
    exact ⟨hrenders 1 _ (by decide), hrenders 3 _ (by decide), hrenders 2 _ (by decide)⟩
  have hlast : Renders plain .primary "max(2,4)".toList
      (.call "max" [.number (.int 2), .number (.int 4)]) := by
    refine @Renders.call plain _ [] [⟨[], ['2'], [], .number (.int 2)⟩,
      ⟨[], ['4'], [], .number (.int 4)⟩] hmax spaces_nil (by simp) (by simp [spaces_nil]) ?_
    rw [List.forall_mem_cons, List.forall_mem_singleton]
    exact ⟨hrenders 2 _ (by decide), hrenders 4 _ (by decide)⟩
  have hpower : Renders plain .power "1 ^ 5".toList _ :=
    Renders.binary (.arithmetic .power) hspace hspace (hrenders 1 _ (by decide))
      (hrenders 5 _ (by decide))
  have hproduct : Renders plain .multiplicative "1 ^ 5*-max(2,4)".toList _ :=
    Renders.binary (.arithmetic .times) spaces_nil spaces_nil (Renders.loosen (by decide) hpower)
      (Renders.negative spaces_nil (hlast.of_primary _))
  have hdifference : Renders plain .additive "median(1, 3,2) - 1 ^ 5*-max(2,4)".toList _ :=
    Renders.binary (.arithmetic .minus) hspace hspace (hfirst.of_primary _) hproduct
  have hpi : Renders plain .primary "Pi".toList (.constant .pi) :=
    Renders.leaf (g := plain) (.constant (by unfold Spells; decide))
  have hall : Renders plain .comparison "median(1, 3,2) - 1 ^ 5*-max(2,4) > Pi".toList tree :=
    Renders.binary (.comparison .greater) hspace hspace (Renders.loosen (by decide) hdifference)
      (hpi.of_primary _)
  have hvalue := ((evaluate_of_written (.standard medianLibrary) tree hwritten).2 _ _ [] [' '] hall
    spaces_nil hspace).2
  refine ⟨hwritten, hvalue.trans ?_⟩
  decide +kernel

end Worksheet.Expression
