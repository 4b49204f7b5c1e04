-- Formulas with references to integers. A reference is replaced by the text
-- of its integer, without brackets, and the whole text is read again. The
-- digits of a natural number are read as a literal, in any place. A minus
-- sign in front of them is read as a sign, and is as good as a literal except
-- at the base of a power, where the power is taken first.
import Worksheet.Proofs.Expression.Completeness
import Worksheet.Proofs.Reference.Filling

namespace Worksheet

open Expression

/-! ## Formulas -/

/-- A formula as it is written, with its brackets. -/
inductive Formula where
  | literal (l : Literal)
  | reference (name : List Char)
  | bracketed (inner : Formula)
  | negative (operand : Formula)
  | positive (operand : Formula)
  | binary (op : Operator) (left right : Formula)

namespace Formula

/-- The names that a formula refers to. -/
def names : Formula → List String
  | .literal _ => []
  | .reference name => [String.ofList name]
  | .bracketed f => f.names
  | .negative f => f.names
  | .positive f => f.names
  | .binary _ l r => l.names ++ r.names

/-- The text writes the formula at the level. -/
inductive Writes : Level → List Char → Formula → Prop
  | literal (l : Literal) : Writes .primary l.text (.literal l)
  | reference {name} :
      ReferenceName name → Writes .primary ('#' :: (name ++ ['#'])) (.reference name)
  | bracketed {sp sp' cs f} :
      plain.Spaces sp → plain.Spaces sp' → Writes .comparison cs f →
      Writes .primary ('(' :: (sp ++ cs ++ sp' ++ [')'])) (.bracketed f)
  | negative {sp cs f} :
      plain.Spaces sp → Writes .signed cs f → Writes .signed ('-' :: (sp ++ cs)) (.negative f)
  | positive {sp cs f} :
      plain.Spaces sp → Writes .signed cs f → Writes .signed ('+' :: (sp ++ cs)) (.positive f)
  | binary (op : Operator) {l r sp sp' a b} :
      plain.Spaces sp → plain.Spaces sp' →
      Writes op.precedence.leftLevel l a → Writes op.precedence.rightLevel r b →
      Writes op.precedence.level (l ++ sp ++ op.symbol.toList ++ (sp' ++ r)) (.binary op a b)
  | loosen {lvl lvl' cs f} : lvl'.AsTight lvl → Writes lvl' cs f → Writes lvl cs f

/-- The tree of a formula, with each reference standing for its integer. -/
def tree (σ : String → Int) : Formula → Expression
  | .literal l => .number l.number
  | .reference name => .number (.int (σ (String.ofList name)))
  | .bracketed f => f.tree σ
  | .negative f => .negative (f.tree σ)
  | .positive f => .positive (f.tree σ)
  | .binary op l r => .binary op (l.tree σ) (r.tree σ)

/-- The magnitude of a reference to a negative integer. -/
def bareNegative? (σ : String → Int) : Formula → Option Nat
  | .reference name =>
    if σ (String.ofList name) < 0 then some (σ (String.ofList name)).natAbs else none
  | _ => none

/-- The tree that is read when the references are replaced. The sign of a
negative integer at the base of a power is that of the power. -/
def reading (σ : String → Int) : Formula → Expression
  | .literal l => .number l.number
  | .reference name =>
    if σ (String.ofList name) < 0 then
      .negative (.number (.int (σ (String.ofList name)).natAbs))
    else .number (.int (σ (String.ofList name)))
  | .bracketed f => f.reading σ
  | .negative f => .negative (f.reading σ)
  | .positive f => .positive (f.reading σ)
  | .binary op l r =>
    match op.precedence, l.bareNegative? σ with
    | .power, some n => .negative (.binary op (.number (.int n)) (r.reading σ))
    | _, _ => .binary op (l.reading σ) (r.reading σ)

/-- No reference to a negative integer is the base of a power. -/
def NoNegativeBase (σ : String → Int) : Formula → Prop
  | .literal _ => True
  | .reference _ => True
  | .bracketed f => f.NoNegativeBase σ
  | .negative f => f.NoNegativeBase σ
  | .positive f => f.NoNegativeBase σ
  | .binary op l r =>
    (op.precedence = .power → l.bareNegative? σ = none) ∧ l.NoNegativeBase σ ∧ r.NoNegativeBase σ

/-! ## The value of what is read -/

theorem reading_binary {σ : String → Int} {op : Operator} {l r : Formula}
    (h : op.precedence = .power → l.bareNegative? σ = none) :
    (Formula.binary op l r).reading σ = .binary op (l.reading σ) (r.reading σ) := by
  rw [reading]
  split
  · rename_i n hpower hnegative
    rw [h hpower] at hnegative
    cases hnegative
  · rfl

theorem reading_power {σ : String → Int} {op : Operator} {l r : Formula} {n : Nat}
    (hop : op.precedence = .power) (hl : l.bareNegative? σ = some n) :
    (Formula.binary op l r).reading σ =
      .negative (.binary op (.number (.int n)) (r.reading σ)) := by
  rw [reading, hop, hl]

/-- Apart from bases of powers, a formula is read as it stands. -/
theorem eval_reading (c : Calculator) {σ : String → Int} {f : Formula} (h : f.NoNegativeBase σ) :
    (f.reading σ).eval c = (f.tree σ).eval c := by
  induction f with
  | literal l => rfl
  | reference name =>
    unfold reading tree
    split
    · rename_i hneg
      have habs : -((σ (String.ofList name)).natAbs : Int) = σ (String.ofList name) := by omega
      simp only [eval, negate, Value.operand, Value.number?, Value.ofNumber, Number.neg, Except.map,
        habs]
    · rfl
  | bracketed f ih => exact ih h
  | negative f ih =>
    unfold reading tree
    simp only [eval, ih h]
  | positive f ih =>
    unfold reading tree
    simp only [eval, ih h]
  | binary op l r ihl ihr =>
    obtain ⟨hbase, hl, hr⟩ := h
    rw [reading_binary hbase]
    unfold tree
    simp only [eval, ihl hl, ihr hr]

/-! ## The text that is read -/

/-- The level of a text after its references are replaced. A minus sign may
have come to its front. -/
def filledLevel : Level → Level
  | .primary => .signed
  | .power => .signed
  | lvl => lvl

theorem filledLevel_asTight {lvl lvl' : Level} (h : lvl'.AsTight lvl) :
    (filledLevel lvl').AsTight (filledLevel lvl) := by
  revert h
  cases lvl <;> cases lvl' <;> decide

theorem filledLevel_of_ne_power {p : Precedence} (h : p ≠ .power) :
    filledLevel p.leftLevel = p.leftLevel ∧ filledLevel p.rightLevel = p.rightLevel ∧
      filledLevel p.level = p.level := by
  cases p with
  | comparison => exact ⟨rfl, rfl, rfl⟩
  | additive => exact ⟨rfl, rfl, rfl⟩
  | multiplicative => exact ⟨rfl, rfl, rfl⟩
  | power => exact absurd rfl h

theorem level_ne_primary (p : Precedence) : p.level ≠ .primary := by
  cases p <;> decide

/-- The text of an integer: its digits, with a minus sign before them if it
is negative. -/
theorem resolve_int {vars : Variables} {name : String} {n : Int}
    (h : vars.get? name = some (.int n)) (hn : n.natAbs < exponentBound) :
    resolve vars name =
      .ok (if n < 0 then '-' :: Nat.toDigits 10 n.natAbs else Nat.toDigits 10 n.natAbs) := by
  have htext : (Value.int n).display = .ok (intDigits n) := by
    have hcell : (Value.int n).display = .ok (intCellText n) := rfl
    unfold intCellText at hcell
    rwa [if_pos hn] at hcell
  have hne : intDigits n ≠ "" := by
    unfold intDigits
    intro he
    have hnil := congrArg String.toList he
    rw [String.toList_ofList] at hnil
    split at hnil
    · cases hnil
    · exact Nat.toDigits_ne_nil hnil
  unfold resolve
  rw [h]
  dsimp only
  rw [htext]
  dsimp only
  rw [if_neg hne]
  unfold intDigits
  rw [String.toList_ofList]

/-- What a text is after its references are replaced. It can be the base of a
power as it stands, or it is a negative integer. -/
structure Filled (vars : Variables) (σ : String → Int) (lvl : Level) (cs ds : List Char)
    (f : Formula) : Prop where
  fills : Fills vars cs ds
  renders : Renders plain (filledLevel lvl) ds (f.reading σ)
  base : lvl = .primary →
    (f.bareNegative? σ = none ∧ Renders plain .primary ds (f.reading σ)) ∨
      ∃ n digits, f.bareNegative? σ = some n ∧ ds = '-' :: digits ∧
        Renders plain .primary digits (.number (.int n))

theorem fills_spaces {vars : Variables} {sp : List Char} (h : plain.Spaces sp) :
    Fills vars sp sp := by
  apply fills_plain
  intro c hc he
  rw [eq_of_mem_spaces h hc] at he
  cases he

theorem fills_symbol {vars : Variables} (op : Operator) :
    Fills vars op.symbol.toList op.symbol.toList := by
  apply fills_plain
  rcases op with op | op
  · cases op <;> exact (by decide)
  · cases op <;> exact (by decide)

theorem fills_literal {vars : Variables} (l : Literal) : Fills vars l.text l.text := by
  apply fills_plain
  rintro c hc rfl
  rcases Literal.mem_text hc with hdigit | hmem
  · exact absurd hdigit (by decide)
  · exact absurd hmem (by decide)

section

variable {vars : Variables} {σ : String → Int}

theorem filled_literal (l : Literal) : Filled vars σ .primary l.text l.text (.literal l) := by
  have hleaf := Renders.leaf (g := plain) (.number l)
  exact ⟨fills_literal l, hleaf.of_primary _, fun _ => Or.inl ⟨rfl, hleaf⟩⟩

theorem filled_reference {name : List Char} (hname : ReferenceName name)
    (h : vars.get? (String.ofList name) = some (.int (σ (String.ofList name))))
    (hσ : (σ (String.ofList name)).natAbs < exponentBound) :
    ∃ ds, Filled vars σ .primary ('#' :: (name ++ ['#'])) ds (.reference name) := by
  have hfills := fills_reference hname (resolve_int h hσ)
  have hdigits := renders_ofNat hσ
  by_cases hneg : σ (String.ofList name) < 0
  · rw [if_pos hneg] at hfills
    refine ⟨_, hfills, ?_, fun _ => Or.inr ⟨_, _, ?_, rfl, hdigits⟩⟩
    · unfold reading
      rw [if_pos hneg]
      exact Renders.negative spaces_nil (hdigits.of_primary .signed)
    · unfold bareNegative?
      exact if_pos hneg
  · rw [if_neg hneg] at hfills
    have hread : (Formula.reference name).reading σ =
        .number (.int (σ (String.ofList name)).natAbs) := by
      have habs : ((σ (String.ofList name)).natAbs : Int) = σ (String.ofList name) := by omega
      unfold reading
      rw [if_neg hneg, habs]
    rw [← hread] at hdigits
    refine ⟨_, hfills, hdigits.of_primary _, fun _ => Or.inl ⟨?_, hdigits⟩⟩
    unfold bareNegative?
    exact if_neg hneg

theorem Filled.bracketed {sp sp' cs ds : List Char} {f : Formula} (hsp : plain.Spaces sp)
    (hsp' : plain.Spaces sp') (h : Filled vars σ .comparison cs ds f) :
    Filled vars σ .primary ('(' :: (sp ++ cs ++ sp' ++ [')']))
      ('(' :: (sp ++ ds ++ sp' ++ [')'])) (.bracketed f) := by
  have hgroup := Renders.group hsp hsp' h.renders
  have hclose : Fills vars [')'] [')'] := fills_plain (by decide)
  refine ⟨?_, hgroup.of_primary _, fun _ => Or.inl ⟨rfl, hgroup⟩⟩
  exact ((((fills_spaces hsp).append h.fills).append (fills_spaces hsp')).append hclose).cons
    (by decide)

theorem Filled.negative {sp cs ds : List Char} {f : Formula} (hsp : plain.Spaces sp)
    (h : Filled vars σ .signed cs ds f) :
    Filled vars σ .signed ('-' :: (sp ++ cs)) ('-' :: (sp ++ ds)) (.negative f) :=
  ⟨((fills_spaces hsp).append h.fills).cons (by decide), Renders.negative hsp h.renders,
    fun he => by cases he⟩

theorem Filled.positive {sp cs ds : List Char} {f : Formula} (hsp : plain.Spaces sp)
    (h : Filled vars σ .signed cs ds f) :
    Filled vars σ .signed ('+' :: (sp ++ cs)) ('+' :: (sp ++ ds)) (.positive f) :=
  ⟨((fills_spaces hsp).append h.fills).cons (by decide), Renders.positive hsp h.renders,
    fun he => by cases he⟩

theorem Filled.loosen {lvl lvl' : Level} {cs ds : List Char} {f : Formula}
    (hle : lvl'.AsTight lvl) (h : Filled vars σ lvl' cs ds f) : Filled vars σ lvl cs ds f := by
  refine ⟨h.fills, Renders.loosen (filledLevel_asTight hle) h.renders, fun he => h.base ?_⟩
  subst he
  revert hle
  cases lvl' <;> decide

/-- The reading of a power: the base stands as it is, or gives its sign to
the power. -/
theorem Filled.renders_power {op : Operator} {l r dl dr sp sp' : List Char} {a b : Formula}
    (hop : op.precedence = .power) (hsp : plain.Spaces sp) (hsp' : plain.Spaces sp')
    (hl : Filled vars σ .primary l dl a) (hr : Filled vars σ .signed r dr b) :
    Renders plain .signed (dl ++ sp ++ op.symbol.toList ++ (sp' ++ dr))
      ((Formula.binary op a b).reading σ) := by
  have hpower : ∀ {cs : List Char} {e : Expression}, Renders plain .primary cs e →
      Renders plain .power (cs ++ sp ++ op.symbol.toList ++ (sp' ++ dr))
        (.binary op e (b.reading σ)) := by
    intro cs e he
    have hbinary := Renders.binary (l := cs) (r := dr) (a := e) (b := b.reading σ) op hsp hsp'
    rw [hop] at hbinary
    exact hbinary he hr.renders
  rcases hl.base rfl with ⟨hnone, hbase⟩ | ⟨n, digits, hsome, rfl, hdigits⟩
  · rw [reading_binary fun _ => hnone]
    exact Renders.loosen (by decide) (hpower hbase)
  · rw [reading_power hop hsome]
    have hsigned := Renders.negative spaces_nil (Renders.loosen (by decide) (hpower hdigits))
    simpa using hsigned

theorem Filled.binary (op : Operator) {l r dl dr sp sp' : List Char} {a b : Formula}
    (hsp : plain.Spaces sp) (hsp' : plain.Spaces sp')
    (hl : Filled vars σ op.precedence.leftLevel l dl a)
    (hr : Filled vars σ op.precedence.rightLevel r dr b) :
    Filled vars σ op.precedence.level (l ++ sp ++ op.symbol.toList ++ (sp' ++ r))
      (dl ++ sp ++ op.symbol.toList ++ (sp' ++ dr)) (.binary op a b) := by
  refine ⟨?_, ?_, fun he => ?_⟩
  · exact ((hl.fills.append (fills_spaces hsp)).append (fills_symbol op)).append
      ((fills_spaces hsp').append hr.fills)
  · by_cases hop : op.precedence = .power
    · rw [hop] at hl hr ⊢
      exact Filled.renders_power hop hsp hsp' hl hr
    · obtain ⟨hleft, hright, hlevel⟩ := filledLevel_of_ne_power hop
      rw [hlevel, reading_binary fun h => absurd h hop]
      exact Renders.binary op hsp hsp' (hleft ▸ hl.renders) (hright ▸ hr.renders)
  · exact absurd he (level_ne_primary _)

/-- Every text of a formula can be filled, and what comes out renders the
reading of the formula. -/
theorem Writes.exists_filled {lvl : Level} {cs : List Char} {f : Formula} (h : f.Writes lvl cs)
    (hσ : ∀ name ∈ f.names,
      vars.get? name = some (.int (σ name)) ∧ (σ name).natAbs < exponentBound) :
    ∃ ds, Filled vars σ lvl cs ds f := by
  induction h with
  | literal l => exact ⟨l.text, filled_literal l⟩
  | @reference name hname =>
    obtain ⟨hget, hbound⟩ := hσ (String.ofList name) (List.mem_singleton.mpr rfl)
    exact filled_reference hname hget hbound
  | bracketed hsp hsp' _ ih =>
    obtain ⟨ds, hds⟩ := ih hσ
    exact ⟨_, hds.bracketed hsp hsp'⟩
  | negative hsp _ ih =>
    obtain ⟨ds, hds⟩ := ih hσ
    exact ⟨_, hds.negative hsp⟩
  | positive hsp _ ih =>
    obtain ⟨ds, hds⟩ := ih hσ
    exact ⟨_, hds.positive hsp⟩
  | binary op hsp hsp' _ _ ihl ihr =>
    obtain ⟨dl, hdl⟩ := ihl fun name hname => hσ name (by simp [names, hname])
    obtain ⟨dr, hdr⟩ := ihr fun name hname => hσ name (by simp [names, hname])
    exact ⟨_, Filled.binary op hsp hsp' hdl hdr⟩
  | loosen hle _ ih =>
    obtain ⟨ds, hds⟩ := ih hσ
    exact ⟨ds, hds.loosen hle⟩

end

/-! ## Values that are there -/

theorem ofNumber_ne_empty (n : Number) : Value.ofNumber n ≠ .empty := by
  cases n with
  | int n => exact fun h => by cases h
  | double x => exact fun h => by cases h

theorem map_ofNumber_ne_empty {x : Except Fault Number} : x.map Value.ofNumber ≠ .ok .empty := by
  intro h
  cases x with
  | error f => cases h
  | ok n => exact ofNumber_ne_empty n (Except.ok.inj h)

theorem negate_ne_empty (v : Value) : negate v ≠ .ok .empty := by
  intro h
  unfold negate at h
  cases ho : v.operand "-" with
  | error f =>
    rw [ho] at h
    cases h
  | ok a =>
    rw [ho] at h
    exact ofNumber_ne_empty a.neg (Except.ok.inj h)

theorem affirm_ne_empty (v : Value) : affirm v ≠ .ok .empty := by
  intro h
  unfold affirm at h
  cases ho : v.operand "+" with
  | error f =>
    rw [ho] at h
    cases h
  | ok a =>
    rw [ho] at h
    -- no number is the empty value
    have hv : v = .empty := Except.ok.inj h
    subst hv
    unfold Value.operand at ho
    dsimp only [Value.number?] at ho
    split at ho
    · cases ho
    · cases ho

theorem apply_ne_empty (op : Operator) (l r : Value) : op.apply l r ≠ .ok .empty := by
  intro h
  cases op with
  | arithmetic op =>
    unfold Operator.apply calculate at h
    dsimp only at h
    split at h
    · cases h
    · split at h
      · exact map_ofNumber_ne_empty h
      · cases h
  | comparison op =>
    unfold Operator.apply compareValues at h
    dsimp only at h
    split at h
    · cases h
    · split at h
      · cases h
      · cases h

/-- Only a call can come to no value at all. -/
theorem eval_ne_empty (c : Calculator) {e : Expression}
    (h : ∀ name args, e ≠ .call name args) : e.eval c ≠ .ok .empty := by
  cases e with
  | number n =>
    rw [eval]
    exact fun he => ofNumber_ne_empty n (Except.ok.inj he)
  | constant k =>
    rw [eval]
    cases k <;> exact fun he => by cases he
  | malformed f =>
    rw [eval]
    exact fun he => by cases he
  | negative e =>
    rw [eval]
    split
    · exact fun he => by cases he
    · exact negate_ne_empty _
  | positive e =>
    rw [eval]
    split
    · exact fun he => by cases he
    · exact affirm_ne_empty _
  | binary op l r =>
    rw [eval]
    split
    · exact fun he => by cases he
    · split
      · exact fun he => by cases he
      · exact apply_ne_empty op _ _
  | call name args => exact absurd rfl (h name args)

theorem reading_ne_call (σ : String → Int) (f : Formula) (name : String) (args : List Expression) :
    f.reading σ ≠ .call name args := by
  induction f with
  | literal l => exact fun h => by cases h
  | reference n =>
    unfold reading
    split
    · exact fun h => by cases h
    · exact fun h => by cases h
  | bracketed f ih => exact ih
  | negative f _ => exact fun h => by cases h
  | positive f _ => exact fun h => by cases h
  | binary op l r _ _ =>
    unfold reading
    split
    · exact fun h => by cases h
    · exact fun h => by cases h

/-! ## The outcome -/

/-- The outcome of an evaluation: its value, or the failure of its fault. -/
def outcomeOf : Except Fault Value → Outcome
  | .ok v => .value v
  | .error f => .failure ⟨.evaluationFailed, f.message⟩

theorem evaluateText_of_renders (c : Calculator) {lvl : Level} {cs sp sp' : List Char}
    {e : Expression} (h : Renders plain lvl cs e) (hsp : plain.Spaces sp)
    (hsp' : plain.Spaces sp') (hcall : ∀ name args, e ≠ .call name args) :
    (Evaluator.ofCalculator c).evaluateText (String.ofList (sp ++ cs ++ sp')) =
      outcomeOf (e.eval c) := by
  have hblank : Text.isEmptyOrBlank (sp ++ cs ++ sp') = false := by
    obtain ⟨x, rest, he, hx, -⟩ := h.operand.first
    unfold Text.isEmptyOrBlank
    rw [List.all_eq_false]
    exact ⟨x, by simp [he], by simp [hx]⟩
  have hengine := evaluate_of_renders c h hsp hsp'
  have hvalue := eval_ne_empty c hcall
  unfold Evaluator.evaluateText Evaluator.ofCalculator
  rw [String.toList_ofList, hblank]
  dsimp only
  rw [hengine]
  cases hr : e.eval c with
  | error f => rfl
  | ok v =>
    rw [hr] at hvalue
    cases v with
    | empty => exact absurd rfl hvalue
    | _ => rfl

/-! ## The law -/

/-- A formula is evaluated as it is read. -/
theorem Writes.evaluate (c : Calculator) {vars : Variables} {σ : String → Int} {lvl : Level}
    {cs sp sp' : List Char} {f : Formula} (h : f.Writes lvl cs) (hsp : plain.Spaces sp)
    (hsp' : plain.Spaces sp')
    (hσ : ∀ name ∈ f.names,
      vars.get? name = some (.int (σ name)) ∧ (σ name).natAbs < exponentBound) :
    (Evaluator.ofCalculator c).evaluate (String.ofList (sp ++ cs ++ sp')) vars =
      .ok (outcomeOf ((f.reading σ).eval c)) := by
  obtain ⟨ds, hds⟩ := h.exists_filled hσ
  have hfills := ((fills_spaces hsp).append hds.fills).append (fills_spaces hsp')
  unfold Evaluator.evaluate
  rw [hfills.substitute]
  dsimp only
  rw [evaluateText_of_renders c hds.renders hsp hsp' (reading_ne_call σ f)]

theorem Writes.of_primary {cs : List Char} {f : Formula} (h : f.Writes .primary cs)
    (lvl : Level) : f.Writes lvl cs := by
  apply Writes.loosen _ h
  cases lvl <;> decide

/-- References stand for integers. A formula has the outcome of its reading,
and where no negative integer is at the base of a power by itself, that of
its tree. -/
theorem references_stand_for_integers (c : Calculator) {vars : Variables} {σ : String → Int}
    {lvl : Level} {cs sp sp' : List Char} {f : Formula} (h : f.Writes lvl cs)
    (hsp : plain.Spaces sp) (hsp' : plain.Spaces sp')
    (hσ : ∀ name ∈ f.names,
      vars.get? name = some (.int (σ name)) ∧ (σ name).natAbs < Nat.pow 10 21) :
    (Evaluator.ofCalculator c).evaluate (String.ofList (sp ++ cs ++ sp')) vars =
        .ok (outcomeOf ((f.reading σ).eval c)) ∧
      (f.NoNegativeBase σ →
        (Evaluator.ofCalculator c).evaluate (String.ofList (sp ++ cs ++ sp')) vars =
          .ok (outcomeOf ((f.tree σ).eval c))) := by
  have hread := h.evaluate c hsp hsp' hσ
  refine ⟨hread, fun hbase => ?_⟩
  rw [hread, eval_reading c hbase]

/-- A negative integer behind a minus sign and in a product. -/
theorem difference_with_negative_product :
    let reference : Formula := .reference ['A']
    let f : Formula := .binary (.arithmetic .minus) (.literal (.ofNat 10))
      (.binary (.arithmetic .times) reference reference)
    let vars : Variables := .ofList [("A", .int (-3))]
    f.Writes .additive "10 - #A#*#A#".toList ∧ f.NoNegativeBase (fun _ => -3) ∧
      Evaluator.builtIn.evaluate "10 - #A#*#A#" vars = .ok (.value (.int 1)) := by
  intro reference f vars
  have hspace : plain.Spaces [' '] := by decide
  have hname : ReferenceName ['A'] := by decide
  have hreference : reference.Writes .primary "#A#".toList := Writes.reference hname
  have hproduct : Writes .multiplicative "#A#*#A#".toList _ :=
    Writes.binary (.arithmetic .times) spaces_nil spaces_nil (hreference.of_primary _)
      (hreference.of_primary _)
  have hwrites : f.Writes .additive "10 - #A#*#A#".toList :=
    Writes.binary (.arithmetic .minus) hspace hspace ((Writes.literal (.ofNat 10)).of_primary _)
      hproduct
  have hbase : f.NoNegativeBase (fun _ => -3) := by
    simp [f, reference, NoNegativeBase, Operator.precedence]
  have hσ : ∀ name ∈ f.names, vars.get? name = some (.int (-3)) ∧
      (-3 : Int).natAbs < Nat.pow 10 21 := by
    intro name hname
    have hname : name = "A" := by simpa [f, reference, names] using hname
    rw [hname]
    exact ⟨rfl, by decide⟩
  have hvalue := (references_stand_for_integers Calculator.builtIn hwrites spaces_nil spaces_nil
    hσ).2 hbase
  exact ⟨hwrites, hbase, hvalue⟩

theorem eval_negative {c : Calculator} {e : Expression} {v : Value} (h : e.eval c = .ok v) :
    (Expression.negative e).eval c = negate v := by
  rw [eval, h]

/-- The power of two integers, where it is a double. -/
theorem eval_power (c : Calculator) {a b : Int} {x : Double}
    (h : ((Number.int a).power (.int b)).toOption = some x) :
    (Expression.binary (.arithmetic .power) (.number (.int a)) (.number (.int b))).eval c =
      .ok (.double x) := by
  have hpower : (Number.int a).power (.int b) = .ok x := by
    cases he : (Number.int a).power (.int b) with
    | error f =>
      rw [he] at h
      cases h
    | ok y =>
      rw [he] at h
      exact congrArg Except.ok (Option.some.inj h)
  have heval :
      (Expression.binary (.arithmetic .power) (.number (.int a)) (.number (.int b))).eval c =
        (((Number.int a).power (.int b)).map Number.double).map Value.ofNumber := rfl
  rw [heval, hpower]
  rfl

/-- A reference to minus one, squared. It is read as minus the square of one,
and the square of minus one is another number. -/
theorem square_of_reference_to_minus_one :
    let f : Formula := .binary (.arithmetic .power) (.reference ['A']) (.literal (.ofNat 2))
    let vars : Variables := .ofList [("A", .int (-1))]
    f.Writes .power "#A# ^ 2".toList ∧
      Evaluator.builtIn.evaluate "#A# ^ 2" vars = .ok (.value (.double Double.one.neg)) ∧
      (f.tree fun _ => -1).eval Calculator.builtIn = .ok (.double Double.one) ∧
      Double.one.neg ≠ Double.one := by
  intro f vars
  have hname : ReferenceName ['A'] := by decide
  have hspace : plain.Spaces [' '] := by decide
  have hwrites : f.Writes .power "#A# ^ 2".toList :=
    Writes.binary (.arithmetic .power) hspace hspace (Writes.reference hname)
      ((Writes.literal (.ofNat 2)).of_primary _)
  have hσ : ∀ name ∈ f.names, vars.get? name = some (.int (-1)) ∧
      (-1 : Int).natAbs < exponentBound := by
    intro name hname
    have hname : name = "A" := by simpa [f, names] using hname
    rw [hname]
    exact ⟨rfl, by decide⟩
  have hread : (f.reading fun _ => -1).eval Calculator.builtIn = .ok (.double Double.one.neg) := by
    have hpower := eval_power Calculator.builtIn (a := 1) (b := 2) (x := Double.one)
      (by decide +kernel)
    exact eval_negative hpower
  have hvalue := hwrites.evaluate Calculator.builtIn spaces_nil spaces_nil hσ
  rw [hread] at hvalue
  exact ⟨hwrites, hvalue, eval_power Calculator.builtIn (by decide +kernel),
    by decide +kernel⟩

end Formula

end Worksheet
