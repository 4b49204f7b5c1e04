-- Faults of an evaluation. With the standard functions an expression has a
-- number for its value, or a fault of the expression, except where an operator
-- outside the calls leaves the doubles. No operator reports this, only a call
-- does, and so an overflow is the fault of the whole expression.
import Worksheet.Proofs.Expression.Operation
import Worksheet.Proofs.Function.Answers
import Worksheet.Proofs.Number.Overflow
import Worksheet.Proofs.Reference.Formula

namespace Worksheet.Expression

/-! ## Where an expression overflows -/

/-- An operator of the tree overflows, and nothing that is evaluated before it
has a fault. -/
inductive Overflows (c : Calculator) : Expression → Prop
  | here {op : Arithmetic} {l r : Expression} {u v : Value} {a b : Number} :
      l.eval c = .ok u → r.eval c = .ok v → u.number? = some a → v.number? = some b →
      op.Overflows a b → Overflows c (.binary (.arithmetic op) l r)
  | left {op : Operator} {l r : Expression} : Overflows c l → Overflows c (.binary op l r)
  | right {op : Operator} {l r : Expression} {u : Value} :
      l.eval c = .ok u → Overflows c r → Overflows c (.binary op l r)
  | negative {e : Expression} : Overflows c e → Overflows c (.negative e)
  | positive {e : Expression} : Overflows c e → Overflows c (.positive e)
  | argument {name : String} {before after : List Expression} {e : Expression} {vs : List Value} :
      (c.registry.get? name).isSome = true → evalAll c before = .ok vs → Overflows c e →
      Overflows c (.call name (before ++ e :: after))

variable {c : Calculator}

/-- An overflow is the fault of the whole expression. -/
theorem Overflows.eval {e : Expression} (h : Overflows c e) :
    ∃ f, e.eval c = .error f ∧ f.kind = .overflow := by
  induction h with
  | here hl hr hu hv hop =>
    obtain ⟨f, hf, hkind⟩ := hop.apply
    refine ⟨f, ?_, hkind⟩
    rw [eval_binary _ hl hr, apply_arithmetic _ hu hv, hf]
    rfl
  | left _ ih =>
    obtain ⟨f, hf, hkind⟩ := ih
    exact ⟨f, by rw [Expression.eval, hf], hkind⟩
  | right hl _ ih =>
    obtain ⟨f, hf, hkind⟩ := ih
    exact ⟨f, by rw [Expression.eval, hl, hf], hkind⟩
  | negative _ ih =>
    obtain ⟨f, hf, hkind⟩ := ih
    exact ⟨f, by rw [Expression.eval, hf], hkind⟩
  | positive _ ih =>
    obtain ⟨f, hf, hkind⟩ := ih
    exact ⟨f, by rw [Expression.eval, hf], hkind⟩
  | argument hname hbefore _ ih =>
    obtain ⟨f, hf, hkind⟩ := ih
    obtain ⟨g, hg⟩ := Option.isSome_iff_exists.mp hname
    exact ⟨f, by rw [Expression.eval, hg, evalAll_of_fault hbefore hf], hkind⟩

/-! ## What else an evaluation comes to -/

/-- The fault is one of the expression, perhaps that of a function which is not
there. -/
def OfExpression (f : Fault) : Prop := f.kind = .expression ∨ f.kind = .unsupported

/-- The expression has a number, or a fault of the expression, or overflows. -/
inductive Settled (c : Calculator) (e : Expression) : Prop
  | number {v : Value} : e.eval c = .ok v → v.number?.isSome = true → Settled c e
  | fault {f : Fault} : e.eval c = .error f → OfExpression f → Settled c e
  | overflow : Overflows c e → Settled c e

/-- The arguments before the first one that has a fault are numbers. -/
theorem evalAll_cases {args : List Expression} (h : ∀ e ∈ args, Settled c e) :
    (∃ vs, evalAll c args = .ok vs ∧ Numeric vs) ∨
      (∃ f, evalAll c args = .error f ∧ OfExpression f) ∨
        ∃ before e after vs, args = before ++ e :: after ∧ evalAll c before = .ok vs ∧
          Overflows c e := by
  induction args with
  | nil => exact Or.inl ⟨[], by rw [evalAll], List.forall_mem_nil _⟩
  | cons x rest ih =>
    rw [evalAll]
    cases h x (by simp) with
    | @number v hv hnumber =>
      rw [hv]
      rcases ih fun e he => h e (List.mem_cons_of_mem x he) with
        ⟨vs, hvs, hnumeric⟩ | ⟨f, hf, hkind⟩ | ⟨before, e, after, vs, rfl, hvs, he⟩
      · rw [hvs]
        exact Or.inl ⟨v :: vs, rfl, List.forall_mem_cons.mpr ⟨hnumber, hnumeric⟩⟩
      · rw [hf]
        exact Or.inr (Or.inl ⟨f, rfl, hkind⟩)
      · refine Or.inr (Or.inr ⟨x :: before, e, after, v :: vs, rfl, ?_, he⟩)
        rw [evalAll, hv, hvs]
    | fault hf hkind =>
      rw [hf]
      exact Or.inr (Or.inl ⟨_, rfl, hkind⟩)
    | overflow hx => exact Or.inr (Or.inr ⟨[], x, rest, [], rfl, by rw [evalAll], hx⟩)

/-- An operator between two numbers. -/
theorem settled_apply {op : Operator} {l r : Expression} {u v : Value} (hu : l.eval c = .ok u)
    (hv : r.eval c = .ok v) (hul : u.number?.isSome = true) (hvr : v.number?.isSome = true) :
    Settled c (.binary op l r) := by
  obtain ⟨a, ha⟩ := Option.isSome_iff_exists.mp hul
  obtain ⟨b, hb⟩ := Option.isSome_iff_exists.mp hvr
  have heval := eval_binary op hu hv
  cases op with
  | comparison op =>
    rw [apply_comparison op ha hb] at heval
    exact .number heval rfl
  | arithmetic op =>
    rw [apply_arithmetic op ha hb] at heval
    rcases op.apply_cases a b with ⟨n, hn⟩ | ⟨f, hf, hkind⟩ | hover
    · rw [hn] at heval
      exact .number heval (by rw [Value.number?_ofNumber]; rfl)
    · rw [hf] at heval
      exact .fault heval (Or.inl hkind)
    · exact .overflow (.here hu hv ha hb hover)

theorem settled_binary (op : Operator) {l r : Expression} (hl : Settled c l)
    (hr : Settled c r) : Settled c (.binary op l r) := by
  cases hl with
  | fault hf hkind => exact .fault (by rw [eval, hf]) hkind
  | overflow h => exact .overflow (.left h)
  | number hu hul =>
    cases hr with
    | fault hf hkind => exact .fault (by rw [eval, hu, hf]) hkind
    | overflow h => exact .overflow (.right hu h)
    | number hv hvr => exact settled_apply hu hv hul hvr

/-- A call passes on the number, and reports the fault as its own. -/
theorem applyFunction_cases (name : String) {f : Function} {args : List Value}
    (h : Answers (f args)) :
    (∃ v, applyFunction name f args = .ok v ∧ v.number?.isSome = true) ∨
      ∃ g, applyFunction name f args = .error (.callFailed (Text.upper name) g) := by
  unfold applyFunction
  cases hf : f args with
  | ok v =>
    rw [hf] at h
    exact Or.inl ⟨v, rfl, h⟩
  | error g =>
    rw [hf] at h
    exact Or.inr ⟨g, congrArg Except.error (if_pos h)⟩

theorem settled_call (name : String) {args : List Expression}
    (h : ∀ e ∈ args, Settled .builtIn e) : Settled .builtIn (.call name args) := by
  cases hname : Calculator.builtIn.registry.get? name with
  | none => exact .fault (by rw [eval, hname]; rfl) (Or.inr rfl)
  | some g =>
    rcases evalAll_cases h with ⟨vs, hvs, hnumeric⟩ | ⟨f, hf, hkind⟩ |
      ⟨before, e, after, vs, rfl, hvs, he⟩
    · obtain ⟨entry, hentry, rfl⟩ := Standard.exists_entry hname
      have hanswers := Standard.answers_of_mem_table entry hentry vs hnumeric
      have heval : (Expression.call name args).eval .builtIn = applyFunction name entry.run vs := by
        rw [eval, hname]
        dsimp only
        rw [hvs]
      rcases applyFunction_cases name hanswers with ⟨v, hv, hnumber⟩ | ⟨f, hf⟩
      · exact .number (heval.trans hv) hnumber
      · exact .fault (heval.trans hf) (Or.inl rfl)
    · exact .fault (by rw [eval, hname]; dsimp only; rw [hf]) hkind
    · exact .overflow (.argument (by rw [hname]; rfl) hvs he)

theorem Parsed.settled {e : Expression} (h : Parsed e) : Settled .builtIn e := by
  induction h with
  | number n => exact .number (by rw [eval]) (by rw [Value.number?_ofNumber]; rfl)
  | constant k => exact .number (by rw [eval]) (by cases k <;> rfl)
  | malformed hf => exact .fault (by rw [eval]) (Or.inl hf)
  | negative _ ih =>
    cases ih with
    | fault hf hkind => exact .fault (by rw [eval, hf]) hkind
    | overflow h => exact .overflow (.negative h)
    | number hv hnumber =>
      obtain ⟨a, ha⟩ := Option.isSome_iff_exists.mp hnumber
      have hneg := negate_of_number? ha
      exact .number (by rw [eval, hv]; exact hneg) (by rw [Value.number?_ofNumber]; rfl)
  | positive _ ih =>
    cases ih with
    | fault hf hkind => exact .fault (by rw [eval, hf]) hkind
    | overflow h => exact .overflow (.positive h)
    | number hv hnumber =>
      obtain ⟨a, ha⟩ := Option.isSome_iff_exists.mp hnumber
      have hsame := affirm_of_number? ha
      exact .number (by rw [eval, hv]; exact hsame) hnumber
  | binary op _ _ ihl ihr => exact settled_binary op ihl ihr
  | call name _ ih => exact settled_call name ih

/-! ## The law -/

/-- With the standard functions, and no others behind them, an expression has
the empty value or a number, or a fault of the expression, or its fault is an
overflow. It is an overflow if and only if an operator of the expression
overflows and nothing that is evaluated before it has a fault. -/
theorem only_overflow_escapes (text : String) :
    let c : Calculator := .builtIn
    (∀ v, c.evaluate text = .ok v → v = .empty ∨ v.number?.isSome = true) ∧
      (∀ f, c.evaluate text = .error f → OfExpression f ∨ f.kind = .overflow) ∧
      ((∃ f, c.evaluate text = .error f ∧ f.kind = .overflow) ↔ Overflows c (ofText text)) := by
  intro c
  by_cases hblank : body text.toList = []
  · rw [evaluate_of_blank hblank, ofText_of_blank hblank]
    refine ⟨?_, nofun, nofun, nofun⟩
    rintro v ⟨⟩
    exact Or.inl rfl
  · have hback : Overflows c (ofText text) →
        ∃ f, (ofText text).eval c = .error f ∧ f.kind = .overflow := Overflows.eval
    rw [evaluate_of_body hblank]
    have hsettled : Settled c (ofText text) := (parsed_parse (body text.toList)).settled
    cases hsettled with
    | number hv hnumber =>
      rw [hv] at hback ⊢
      refine ⟨?_, nofun, nofun, hback⟩
      rintro w ⟨⟩
      exact Or.inr hnumber
    | fault hf hkind =>
      rw [hf] at hback ⊢
      refine ⟨nofun, ?_, ?_, hback⟩
      · rintro g ⟨⟩
        exact Or.inl hkind
      · rintro ⟨g, ⟨⟩, hover⟩
        rcases hkind with h | h
        · rw [h] at hover
          cases hover
        · rw [h] at hover
          cases hover
    | overflow h =>
      obtain ⟨f, hf, hkind⟩ := hback h
      rw [hf]
      refine ⟨nofun, ?_, fun _ => h, fun _ => ⟨f, rfl, hkind⟩⟩
      rintro g ⟨⟩
      exact Or.inr hkind

/-- A power of ten past the doubles plus a double. -/
theorem evaluate_power_of_ten_plus_pi {k : Nat} (h : 309 ≤ k) (hdigits : k < Fault.digitLimit) :
    Calculator.builtIn.evaluate
      (String.ofList (Nat.toDigits 10 (10 ^ k) ++ " + PI".toList)) = .error .integerTooLarge := by
  have hspace : plain.Spaces [' '] := by decide
  have hlength : (Nat.toDigits 10 (10 ^ k)).length ≤ Fault.digitLimit :=
    (Nat.length_toDigits_le_iff (by decide) (by decide)).mpr
      (Nat.pow_lt_pow_right (by decide) hdigits)
  have hlarge := Renders.leaf (g := plain) (.number (Literal.ofNat (10 ^ k)))
  have hpi := Renders.leaf (g := plain) (.constant (spells_name .pi))
  rw [Literal.text_ofNat, Literal.number_ofNat_of_length hlength] at hlarge
  have hsum := Renders.binary (.arithmetic .plus) hspace hspace (hlarge.of_primary _)
    (hpi.of_primary _)
  have hvalue := evaluate_of_renders .builtIn hsum spaces_nil spaces_nil
  have hfault : (Arithmetic.plus).apply (.int (10 ^ k : Nat)) (.double Double.pi) =
      .error .integerTooLarge :=
    Number.combine_of_unmixable (.left (Number.pastDoubles_pow_ten h)) (· + ·) Double.add
  rw [List.nil_append, List.append_nil, List.append_assoc, List.append_assoc,
    eval_binary _ (u := .int (10 ^ k : Nat)) (v := .double Double.pi) (by rw [eval]; rfl)
      (by rw [eval]; rfl), apply_arithmetic .plus rfl rfl, hfault] at hvalue
  exact hvalue

/-- An integer past the doubles plus a double: the fault is neither of the
expression nor of a function that is not there. -/
theorem large_integer_plus_pi :
    let text := String.ofList (Nat.toDigits 10 (10 ^ 309) ++ " + PI".toList)
    Calculator.builtIn.evaluate text = .error .integerTooLarge ∧
      ¬ OfExpression .integerTooLarge := by
  refine ⟨evaluate_power_of_ten_plus_pi (Nat.le_refl _) (by decide), ?_⟩
  rintro (h | h)
  · cases h
  · cases h

end Worksheet.Expression
