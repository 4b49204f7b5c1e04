-- Operators and calls on trees. Between numbers an operator does what it does
-- to the numbers, a sign does too, and the arguments of a call are evaluated up
-- to the first fault. The tree of an expression is that of its body.
import Worksheet.Proofs.Expression.Completeness

namespace Worksheet

/-! ## Operators between numbers -/

theorem Value.operand_of_number? {v : Value} {a : Number} (h : v.number? = some a)
    (symbol : String) : v.operand symbol = .ok a := by
  unfold operand
  rw [h]

theorem operands_of_number? {u v : Value} {a b : Number} (hu : u.number? = some a)
    (hv : v.number? = some b) (symbol : String) : operands symbol u v = .ok (a, b) := by
  unfold operands
  rw [Value.operand_of_number? hu, Value.operand_of_number? hv]

theorem Value.number?_ofNumber (a : Number) : (Value.ofNumber a).number? = some a := by
  cases a <;> rfl

theorem negate_of_number? {v : Value} {a : Number} (h : v.number? = some a) :
    negate v = .ok (.ofNumber a.neg) := by
  unfold negate
  rw [Value.operand_of_number? h]
  rfl

theorem affirm_of_number? {v : Value} {a : Number} (h : v.number? = some a) :
    affirm v = .ok v := by
  unfold affirm
  rw [Value.operand_of_number? h]
  rfl

theorem Arithmetic.ofSymbol?_symbol (op : Arithmetic) : ofSymbol? op.symbol = some op := by
  cases op <;> rfl

theorem Comparison.ofSymbol?_symbol (op : Comparison) : ofSymbol? op.symbol = some op := by
  cases op <;> rfl

theorem apply_arithmetic (op : Arithmetic) {u v : Value} {a b : Number}
    (hu : u.number? = some a) (hv : v.number? = some b) :
    (Operator.arithmetic op).apply u v = (op.apply a b).map Value.ofNumber := by
  unfold Operator.apply calculate
  dsimp only
  rw [operands_of_number? hu hv, Arithmetic.ofSymbol?_symbol]

theorem apply_comparison (op : Comparison) {u v : Value} {a b : Number}
    (hu : u.number? = some a) (hv : v.number? = some b) :
    (Operator.comparison op).apply u v = .ok (.bool (op.holds (a.compare? b))) := by
  unfold Operator.apply compareValues
  dsimp only
  rw [operands_of_number? hu hv, Comparison.ofSymbol?_symbol]

namespace Expression

variable {c : Calculator}

/-! ## Trees -/

theorem eval_binary (op : Operator) {l r : Expression} {u v : Value} (hl : l.eval c = .ok u)
    (hr : r.eval c = .ok v) : (Expression.binary op l r).eval c = op.apply u v := by
  rw [eval, hl, hr]

theorem evalAll_of_fault {before after : List Expression} {e : Expression} {vs : List Value}
    {f : Fault} (hbefore : evalAll c before = .ok vs) (he : e.eval c = .error f) :
    evalAll c (before ++ e :: after) = .error f := by
  induction before generalizing vs with
  | nil => rw [List.nil_append, evalAll, he]
  | cons x rest ih =>
    rw [evalAll] at hbefore
    rw [List.cons_append, evalAll]
    cases hx : x.eval c with
    | error g =>
      rw [hx] at hbefore
      cases hbefore
    | ok v =>
      rw [hx] at hbefore
      cases hrest : evalAll c rest with
      | error g =>
        rw [hrest] at hbefore
        cases hbefore
      | ok ws => rw [ih hrest]

/-! ## The tree of an expression -/

/-- Without an equals sign in front the body is the trimmed text. -/
theorem body_of_unmarked {cs : List Char} (h : (Text.trim cs).head? ≠ some '=') :
    body cs = Text.trim cs := by
  unfold body
  split
  · rename_i rest ht
    rw [ht] at h
    exact absurd rfl h
  · rfl

/-- An equals sign in front is dropped. -/
theorem body_of_marked {cs rest : List Char} (h : Text.trim cs = '=' :: rest) :
    body cs = Text.trim rest := by
  unfold body
  rw [h]
  rfl

/-- The tree of an expression proper. -/
def ofText (text : String) : Expression := parse (body text.toList)

theorem evaluate_of_body {text : String} (h : body text.toList ≠ []) :
    c.evaluate text = (ofText text).eval c := by
  unfold Calculator.evaluate ofText
  split
  · rename_i hb
    exact absurd hb h
  · rfl

theorem evaluate_of_blank {text : String} (h : body text.toList = []) :
    c.evaluate text = .ok .empty := by
  unfold Calculator.evaluate
  rw [h]

theorem ofText_of_blank {text : String} (h : body text.toList = []) :
    ofText text = .malformed .missingOperand := by
  unfold ofText
  rw [h, parse_eq]
  rfl

/-- What is read from a text other than a blank one is evaluated. -/
theorem evaluate_of_ofText {text : String} {e : Expression} (h : ofText text = e)
    (he : e ≠ .malformed .missingOperand) : c.evaluate text = e.eval c := by
  have hbody : body text.toList ≠ [] := fun hb => he (h.symm.trans (ofText_of_blank hb))
  rw [evaluate_of_body hbody, h]

theorem ofText_of_renders {lvl : Level} {cs : List Char} {e : Expression}
    (h : Renders plain lvl cs e) : ofText (String.ofList cs) = e := by
  have hbody := body_of_renders h spaces_nil spaces_nil
  rw [List.nil_append, List.append_nil] at hbody
  unfold ofText
  rw [String.toList_ofList, hbody, parse_of_renders h]

/-- A tree as it is read from a text: where no expression stands there is a
leaf, and the fault in it is one of the expression. -/
inductive Parsed : Expression → Prop
  | number (n : Number) : Parsed (.number n)
  | constant (k : Constant) : Parsed (.constant k)
  | malformed {f : Fault} : f.kind = .expression → Parsed (.malformed f)
  | negative {e : Expression} : Parsed e → Parsed (.negative e)
  | positive {e : Expression} : Parsed e → Parsed (.positive e)
  | binary (op : Operator) {l r : Expression} : Parsed l → Parsed r → Parsed (.binary op l r)
  | call (name : String) {args : List Expression} :
      (∀ e ∈ args, Parsed e) → Parsed (.call name args)

theorem parsed_leaf (cs : List Char) : Parsed (leaf cs) := by
  unfold leaf
  split
  · exact .number _
  · split
    · exact .constant _
    · exact .malformed rfl

theorem parsed_parse (text : List Char) : Parsed (parse text) := by
  induction hn : text.length using Nat.strongRecOn generalizing text with
  | ind n ih =>
    subst hn
    have hlen := Text.length_trim_le text
    rw [parse_eq]
    cases ht : Text.trim text with
    | nil => exact .malformed rfl
    | cons c rest =>
      rw [ht] at hlen
      have hshort : ∀ t : List Char, t.length < (c :: rest).length → Parsed (parse t) :=
        fun t h => ih t.length (by omega) t rfl
      dsimp only
      cases hs : split? (c :: rest) with
      | some s =>
        obtain ⟨hl, hr⟩ := length_of_split? hs
        exact .binary s.operator (hshort _ hl) (hshort _ hr)
      | none =>
        dsimp only
        split
        · cases hg : group? (c :: rest) with
          | some inside => exact hshort inside (length_of_group? hg)
          | none => exact .malformed rfl
        · cases hc : callOf? (c :: rest) with
          | some call =>
            refine .call _ fun e he => ?_
            obtain ⟨a, ha, rfl⟩ := List.mem_map.mp he
            have hlength := Nat.lt_of_le_of_lt (length_of_mem_arguments a ha) (length_of_callOf? hc)
            exact hshort a hlength
          | none =>
            dsimp only
            split
            · exact .negative (hshort rest (by simp))
            · split
              · exact .positive (hshort rest (by simp))
              · exact parsed_leaf _

end Expression

end Worksheet
