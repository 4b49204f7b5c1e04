-- What the standard functions answer to numbers: a number, or a fault that the
-- call reports under its own name. Only a list among the arguments could leave
-- a function without the argument that it looks for.
import Worksheet.Function.Standard
import Worksheet.Proofs.OrderedMap

namespace Worksheet

/-! ## Faults of calculations -/

/-- If there is a fault, a call reports it. -/
def Reported {α : Type} : Except Fault α → Prop
  | .ok _ => True
  | .error f => f.isReportedByCall = true

theorem Reported.fault {α : Type} {r : Except Fault α} (h : Reported r) {f : Fault}
    (hr : r = .error f) : f.isReportedByCall = true := by
  rw [hr] at h
  exact h

theorem Reported.map {α β : Type} {r : Except Fault α} (h : Reported r) (g : α → β) :
    Reported (r.map g) := by
  cases r with
  | ok a => trivial
  | error f => exact h

/-- A call answers with a number, or with a fault that it reports. -/
def Answers : Except Fault Value → Prop
  | .ok v => v.number?.isSome = true
  | .error f => f.isReportedByCall = true

theorem Reported.answers {r : Except Fault Double} (h : Reported r) :
    Answers (r.map Value.double) := by
  cases r with
  | ok x => rfl
  | error f => exact h

theorem reported_toDouble (a : Number) : Reported a.toDouble := by
  unfold Number.toDouble
  split
  · split
    · trivial
    · rfl
  · trivial

theorem reported_quotient (a b : Number) : Reported (a.quotient b) := by
  unfold Number.quotient
  split
  · dsimp only
    split
    · trivial
    · rfl
  · cases ha : a.toDouble with
    | error f => exact (reported_toDouble a).fault ha
    | ok x =>
      cases hb : b.toDouble with
      | error f => exact (reported_toDouble b).fault hb
      | ok y => trivial

theorem reported_whole (round : Rat → Int) (x : Double) : Reported (x.whole round) := by
  cases x with
  | nan => rfl
  | infinity s => rfl
  | finite s m e h => trivial

namespace Standard

theorem reported_remainder (x y : Double) : Reported (remainder x y) := by
  unfold remainder Double.floor
  split
  · rfl
  · cases hn : (x.div y).whole Rat.floor with
    | error f => exact (reported_whole _ _).fault hn
    | ok n => trivial

theorem reported_powerOf (x y : Double) : Reported (powerOf x y) := by
  unfold powerOf
  dsimp only
  split
  · rfl
  · split
    · trivial
    · trivial
    · rfl
    · rfl

theorem reported_squareRoot (x : Double) : Reported (squareRoot x) := by
  unfold squareRoot
  split
  · rfl
  · trivial

theorem reported_exponential (x : Double) : Reported (exponential x) := by
  unfold exponential
  dsimp only
  split
  · rfl
  · trivial

theorem reported_logarithm (log : Double → Double) (x : Double) : Reported (logarithm log x) := by
  unfold logarithm
  split
  · trivial
  · rfl

theorem reported_logarithmTo (x base : Double) : Reported (logarithmTo x base) := by
  unfold logarithmTo
  cases hx : logarithm Double.log x with
  | error f => exact (reported_logarithm _ x).fault hx
  | ok a =>
    cases hbase : logarithm Double.log base with
    | error f => exact (reported_logarithm _ base).fault hbase
    | ok b =>
      dsimp only
      split
      · rfl
      · trivial

theorem reported_ofAngle (f : Double → Double) (x : Double) : Reported (ofAngle f x) := by
  unfold ofAngle
  split
  · rfl
  · trivial

/-! ## Faults of rounding -/

theorem reported_scaleFactor (places : Int) : Reported (scaleFactor places) := by
  unfold scaleFactor
  split
  · rfl
  · exact reported_toDouble _

theorem reported_unscale (n places : Int) : Reported (unscale n places) := by
  unfold unscale
  dsimp only
  split
  · rfl
  · exact reported_quotient _ _

theorem reported_roundAt {whole : Double → Except Fault Int} (hwhole : ∀ x, Reported (whole x))
    (x : Double) (places : Int) : Reported (roundAt whole x places) := by
  unfold roundAt
  cases hs : scaleFactor places with
  | error f => exact (reported_scaleFactor places).fault hs
  | ok s =>
    dsimp only
    cases hn : whole (x.mul s) with
    | error f => exact (hwhole _).fault hn
    | ok n => exact reported_unscale n places

theorem reported_roundNearest (x : Double) (places : Int) : Reported (roundNearest x places) :=
  (reported_roundAt (fun _ => reported_whole _ _) _ places).map _

theorem reported_roundAway (x : Double) (places : Int) : Reported (roundAway x places) :=
  (reported_roundAt (reported_whole Rat.ceil) _ places).map _

theorem reported_roundToward (x : Double) (places : Int) : Reported (roundToward x places) := by
  unfold roundToward
  split
  · exact (reported_whole Double.truncRat x).map _
  · exact reported_roundAt (reported_whole Double.truncRat) x places

end Standard

/-! ## Arguments that are numbers -/

theorem doubles_of_number? {v : Value} {a : Number} (h : v.number? = some a) :
    v.doubles = a.toDouble.map fun x => [x] := by
  cases v with
  | bool b =>
    cases h
    cases b with
    | false => rfl
    | true =>
      have hone : Double.ofInt? 1 = some Double.one := if_pos (by decide +kernel)
      rw [Value.doubles, if_pos rfl, if_pos rfl, Number.toDouble, hone]
      rfl
  | int n =>
    cases h
    rw [Value.doubles]
  | double x =>
    cases h
    rw [Value.doubles]
    rfl
  | empty => cases h
  | text s => cases h
  | list items => cases h

/-- Each argument is a number. -/
def Numeric (args : List Value) : Prop := ∀ v ∈ args, v.number?.isSome = true

/-- Numbers have as many doubles as they are, unless one of them has none. -/
theorem doublesOf_cases {args : List Value} (h : Numeric args) :
    (∃ xs, Value.doublesOf args = .ok xs ∧ xs.length = args.length) ∨
      ∃ f, Value.doublesOf args = .error f ∧ f.isReportedByCall = true := by
  induction args with
  | nil => exact Or.inl ⟨[], by rw [Value.doublesOf], rfl⟩
  | cons v rest ih =>
    obtain ⟨a, ha⟩ := Option.isSome_iff_exists.mp (h v (by simp))
    rw [Value.doublesOf, doubles_of_number? ha, List.length_cons]
    cases hx : a.toDouble with
    | error f => exact Or.inr ⟨f, rfl, (reported_toDouble a).fault hx⟩
    | ok x =>
      rcases ih fun w hw => h w (List.mem_cons_of_mem v hw) with ⟨xs, hxs, hlength⟩ | ⟨f, hf, hrep⟩
      · rw [hxs]
        exact Or.inl ⟨x :: xs, rfl, by rw [List.length_cons, hlength]⟩
      · rw [hf]
        exact Or.inr ⟨f, rfl, hrep⟩

theorem reported_oneDouble (name : String) {args : List Value} (h : Numeric args) :
    Reported (oneDouble name args) := by
  unfold oneDouble
  split
  · rfl
  · rename_i hone
    rw [not_not] at hone
    rcases doublesOf_cases h with ⟨xs, hxs, hlength⟩ | ⟨f, hf, hrep⟩
    · rw [hone] at hlength
      obtain ⟨x, rfl⟩ := List.length_eq_one_iff.mp hlength
      rw [hxs]
      trivial
    · rw [hf]
      exact hrep

theorem reported_twoDoubles (name : String) {args : List Value} (h : Numeric args) :
    Reported (twoDoubles name args) := by
  unfold twoDoubles
  split
  · rfl
  · rename_i htwo
    rw [not_not] at htwo
    rcases doublesOf_cases h with ⟨xs, hxs, hlength⟩ | ⟨f, hf, hrep⟩
    · rw [htwo] at hlength
      obtain ⟨x, y, rfl⟩ := List.length_eq_two.mp hlength
      rw [hxs]
      trivial
    · rw [hf]
      exact hrep

/-- There is a first double, and at most one more. -/
theorem upToTwo_cases (name : String) {args : List Value} (h : Numeric args) :
    (∃ x rest, upToTwo name args = .ok (x :: rest)) ∨
      ∃ f, upToTwo name args = .error f ∧ f.isReportedByCall = true := by
  unfold upToTwo
  split
  · exact Or.inr ⟨_, rfl, rfl⟩
  · rename_i hcount
    rcases doublesOf_cases h with ⟨xs, hxs, hlength⟩ | ⟨f, hf, hrep⟩
    · obtain ⟨x, rest, rfl⟩ := List.exists_cons_of_length_pos (l := xs) (by omega)
      exact Or.inl ⟨x, rest, hxs⟩
    · exact Or.inr ⟨f, hf, hrep⟩

namespace Standard

/-! ## The functions of the table -/

theorem answers_unary (name : String) {f : Double → Except Fault Double}
    (hf : ∀ x, Reported (f x)) (args : List Value) (h : Numeric args) :
    Answers (unary name f args) := by
  unfold unary
  cases hx : oneDouble name args with
  | error e => exact (reported_oneDouble name h).fault hx
  | ok x => exact (hf x).answers

theorem answers_mod (args : List Value) (h : Numeric args) : Answers (mod args) := by
  unfold mod
  cases hx : twoDoubles "MOD" args with
  | error e => exact (reported_twoDoubles _ h).fault hx
  | ok p => exact (reported_remainder p.1 p.2).answers

theorem answers_power (args : List Value) (h : Numeric args) : Answers (power args) := by
  unfold power
  cases hx : twoDoubles "POWER" args with
  | error e => exact (reported_twoDoubles _ h).fault hx
  | ok p => exact (reported_powerOf p.1 p.2).answers

theorem answers_log (args : List Value) (h : Numeric args) : Answers (log args) := by
  unfold log
  rcases upToTwo_cases "LOG" h with ⟨x, rest, hx⟩ | ⟨f, hf, hrep⟩
  · rw [hx]
    rcases rest with - | ⟨base, - | ⟨more, rest⟩⟩
    · exact (reported_logarithm Double.log x).answers
    · exact (reported_logarithmTo x base).answers
    · exact (reported_logarithm Double.log x).answers
  · rw [hf]
    exact hrep

theorem reported_places (name : String) {args : List Value} (h : Numeric args) :
    Reported (places name args) := by
  unfold places
  rcases upToTwo_cases name h with ⟨x, rest, hx⟩ | ⟨f, hf, hrep⟩
  · rw [hx]
    cases rest with
    | nil => trivial
    | cons y more => exact (reported_whole Double.truncRat y).map _
  · rw [hf]
    exact hrep

theorem answers_rounding (name : String) {f : Double → Int → Except Fault Double}
    (hf : ∀ x n, Reported (f x n)) (args : List Value) (h : Numeric args) :
    Answers (rounding name f args) := by
  unfold rounding
  cases hx : places name args with
  | error e => exact (reported_places name h).fault hx
  | ok p => exact (hf p.1 p.2).answers

theorem answers_sum (args : List Value) (h : Numeric args) : Answers (sum args) := by
  unfold sum
  rcases doublesOf_cases h with ⟨xs, hxs, -⟩ | ⟨f, hf, hrep⟩
  · rw [hxs]
    cases xs <;> rfl
  · rw [hf]
    exact hrep

theorem answers_extremum (name : String) (before : Double → Double → Bool) (args : List Value)
    (h : Numeric args) : Answers (extremum name before args) := by
  unfold extremum
  rcases doublesOf_cases h with ⟨xs, hxs, -⟩ | ⟨f, hf, hrep⟩
  · rw [hxs]
    cases xs <;> rfl
  · rw [hf]
    exact hrep

theorem answers_average (args : List Value) (h : Numeric args) : Answers (average args) := by
  unfold average
  rcases doublesOf_cases h with ⟨xs, hxs, -⟩ | ⟨f, hf, hrep⟩
  · rw [hxs]
    cases xs <;> rfl
  · rw [hf]
    exact hrep

/-- Every function of the table answers to numbers. -/
theorem answers_of_mem_table : ∀ e ∈ table, ∀ args, Numeric args → Answers (e.run args) := by
  unfold table
  simp only [List.forall_mem_cons]
  have hwhole : ∀ whole x, Reported ((Double.whole whole x).map Double.ofInt) :=
    fun whole x => (reported_whole whole x).map _
  exact ⟨answers_unary _ fun _ => trivial, answers_unary _ fun _ => trivial, answers_mod,
    answers_power, answers_power, answers_unary _ reported_squareRoot,
    answers_unary _ reported_exponential, answers_log,
    answers_unary _ (reported_logarithm _), answers_unary _ (reported_logarithm _),
    answers_rounding _ reported_roundNearest, answers_rounding _ reported_roundAway,
    answers_rounding _ reported_roundToward,
    answers_unary _ (hwhole _), answers_unary _ (hwhole _), answers_unary _ (hwhole _),
    answers_unary _ (reported_ofAngle _), answers_unary _ (reported_ofAngle _),
    answers_unary _ (reported_ofAngle _),
    answers_sum, answers_extremum _ _, answers_extremum _ _, answers_average, answers_average,
    List.forall_mem_nil _⟩

/-- The registry has the functions of the table, and no others. -/
theorem exists_entry {name : String} {f : Function} (h : registry.get? name = some f) :
    ∃ e ∈ table, e.run = f := by
  have hmap : registry.functions = .ofList (table.map fun e => (e.name, e.run)) := rfl
  unfold Registry.get? at h
  rw [hmap] at h
  obtain ⟨e, he, heq⟩ := List.mem_map.mp (OrderedMap.mem_of_get?_ofList h)
  exact ⟨e, he, congrArg Prod.snd heq⟩

end Standard

end Worksheet
