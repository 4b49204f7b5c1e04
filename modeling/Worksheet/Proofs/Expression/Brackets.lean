-- Brackets in a text. A balanced text opens as many brackets as it closes,
-- and at no place has it closed more than it opened. What stands outside
-- all brackets is said place by place, from the left; in a balanced text
-- the same places are outside when they are counted from the right.
import Worksheet.Expression.Split
import Worksheet.Proofs.Text.Character
import Mathlib.Data.List.Induction

namespace Worksheet.Expression

/-! ## Open brackets -/

/-- What a character adds to the number of open brackets. -/
def weight (c : Char) : Int := if c = '(' then 1 else if c = ')' then -1 else 0

/-- The brackets that a text opens, less those that it closes. -/
def net : List Char → Int
  | [] => 0
  | c :: cs => weight c + net cs

@[simp] theorem net_nil : net [] = 0 := rfl

@[simp] theorem net_cons (c : Char) (cs : List Char) : net (c :: cs) = weight c + net cs := rfl

@[simp] theorem weight_opening : weight '(' = 1 := rfl

@[simp] theorem weight_closing : weight ')' = -1 := rfl

@[simp] theorem net_append (u v : List Char) : net (u ++ v) = net u + net v := by
  induction u with
  | nil => simp
  | cons c u ih =>
    rw [List.cons_append, net_cons, net_cons, ih]
    omega

/-- No bracket stands in the text. -/
def NoBrackets (cs : List Char) : Prop := ∀ c ∈ cs, weight c = 0

instance (cs : List Char) : Decidable (NoBrackets cs) :=
  inferInstanceAs (Decidable (∀ c ∈ cs, weight c = 0))

theorem weight_eq_zero {c : Char} (hopen : c ≠ '(') (hclose : c ≠ ')') : weight c = 0 := by
  unfold weight
  rw [if_neg hopen, if_neg hclose]

/-- A class of characters without brackets. -/
theorem weight_eq_zero_of {p : Char → Prop} {c : Char} (h : p c) (hopen : ¬ p '(')
    (hclose : ¬ p ')') : weight c = 0 := by
  apply weight_eq_zero
  · rintro rfl
    exact hopen h
  · rintro rfl
    exact hclose h

theorem net_of_noBrackets {cs : List Char} (h : NoBrackets cs) : net cs = 0 := by
  induction cs with
  | nil => rfl
  | cons c cs ih =>
    rw [net_cons, h c (by simp), ih fun d hd => h d (List.mem_cons_of_mem c hd)]
    rfl

/-- After `d` brackets that are open, none is closed that was not opened. -/
def Covered : Int → List Char → Prop
  | _, [] => True
  | d, c :: cs => 0 ≤ d + weight c ∧ Covered (d + weight c) cs

instance decidableCovered : (d : Int) → (cs : List Char) → Decidable (Covered d cs)
  | _, [] => .isTrue trivial
  | d, c :: cs =>
    have := decidableCovered (d + weight c) cs
    inferInstanceAs (Decidable (0 ≤ d + weight c ∧ Covered (d + weight c) cs))

theorem covered_append (d : Int) (u v : List Char) :
    Covered d (u ++ v) ↔ Covered d u ∧ Covered (d + net u) v := by
  induction u generalizing d with
  | nil => simp [Covered]
  | cons c u ih =>
    rw [List.cons_append, Covered, Covered, ih, net_cons, and_assoc, Int.add_assoc]

theorem Covered.mono {d d' : Int} {cs : List Char} (h : Covered d cs) (hd : d ≤ d') :
    Covered d' cs := by
  induction cs generalizing d d' with
  | nil => trivial
  | cons c cs ih =>
    obtain ⟨h0, hrest⟩ := h
    exact ⟨by omega, ih hrest (by omega)⟩

/-! ## Balanced texts -/

structure Balanced (cs : List Char) : Prop where
  settled : net cs = 0
  covered : Covered 0 cs

instance (cs : List Char) : Decidable (Balanced cs) :=
  decidable_of_iff (net cs = 0 ∧ Covered 0 cs) ⟨fun h => ⟨h.1, h.2⟩, fun h => ⟨h.1, h.2⟩⟩

theorem balanced_of_noBrackets {cs : List Char} (h : NoBrackets cs) : Balanced cs := by
  refine ⟨net_of_noBrackets h, ?_⟩
  induction cs with
  | nil => trivial
  | cons c cs ih =>
    have hc := h c (by simp)
    unfold Covered
    rw [hc]
    exact ⟨by omega, ih fun d hd => h d (List.mem_cons_of_mem c hd)⟩

theorem Balanced.cons {c : Char} {cs : List Char} (hc : weight c = 0) (h : Balanced cs) :
    Balanced (c :: cs) := by
  constructor
  · rw [net_cons, hc, h.settled]
    rfl
  · unfold Covered
    rw [hc]
    exact ⟨by omega, h.covered⟩

theorem Balanced.append {u v : List Char} (hu : Balanced u) (hv : Balanced v) :
    Balanced (u ++ v) := by
  constructor
  · rw [net_append, hu.settled, hv.settled]
    rfl
  · rw [covered_append, hu.settled]
    exact ⟨hu.covered, hv.covered⟩

/-- The first part of a balanced text is balanced if the second is settled. -/
theorem Balanced.of_append_left {u v : List Char} (h : Balanced (u ++ v)) (hv : net v = 0) :
    Balanced u := by
  have hsettled := h.settled
  rw [net_append, hv, Int.add_zero] at hsettled
  exact ⟨hsettled, ((covered_append 0 u v).mp h.covered).1⟩

/-- The second part of a balanced text is balanced if the first is settled. -/
theorem Balanced.of_append_right {u v : List Char} (h : Balanced (u ++ v)) (hu : net u = 0) :
    Balanced v := by
  have hsettled := h.settled
  have hcovered := ((covered_append 0 u v).mp h.covered).2
  rw [net_append, hu, Int.zero_add] at hsettled
  rw [hu, Int.add_zero] at hcovered
  exact ⟨hsettled, hcovered⟩

/-- With `d` brackets open, the text closes them and those that it opens itself. -/
structure Closes (d : Int) (cs : List Char) : Prop where
  settled : d + net cs = 0
  covered : Covered d cs

theorem closes_zero_iff (cs : List Char) : Closes 0 cs ↔ Balanced cs := by
  constructor
  · intro h
    exact ⟨by simpa using h.settled, h.covered⟩
  · intro h
    exact ⟨by simpa using h.settled, h.covered⟩

theorem Closes.cons {d : Int} {c : Char} {cs : List Char} (hd : 0 ≤ d + weight c)
    (h : Closes (d + weight c) cs) : Closes d (c :: cs) := by
  refine ⟨?_, hd, h.covered⟩
  rw [net_cons, ← Int.add_assoc]
  exact h.settled

theorem Closes.tail {d : Int} {c : Char} {cs : List Char} (h : Closes d (c :: cs)) :
    0 ≤ d + weight c ∧ Closes (d + weight c) cs := by
  obtain ⟨hsettled, h0, hcovered⟩ := h
  rw [net_cons, ← Int.add_assoc] at hsettled
  exact ⟨h0, hsettled, hcovered⟩

/-- A balanced text in a pair of brackets is balanced. -/
theorem Balanced.group {cs : List Char} (h : Balanced cs) :
    Balanced ('(' :: (cs ++ [')'])) := by
  constructor
  · rw [net_cons, net_append, h.settled]
    rfl
  · refine ⟨by simp, ?_⟩
    rw [covered_append, h.settled]
    exact ⟨h.covered.mono (by simp), by simp [Covered]⟩

/-! ## Places outside brackets -/

/-- With `d` brackets open and a text before, read backwards: `p` holds of
every character outside all brackets and of what stands before it. -/
def Outside (p : List Char → Char → Prop) : Int → List Char → List Char → Prop
  | _, _, [] => True
  | d, before, c :: cs => (d = 0 → p before c) ∧ Outside p (d + weight c) (c :: before) cs

variable {p : List Char → Char → Prop}

theorem outside_append (d : Int) (before u v : List Char) :
    Outside p d before (u ++ v) ↔
      Outside p d before u ∧ Outside p (d + net u) (u.reverse ++ before) v := by
  induction u generalizing d before with
  | nil => simp [Outside]
  | cons c u ih =>
    rw [List.cons_append, Outside, Outside, ih, net_cons, and_assoc, Int.add_assoc,
      List.reverse_cons, List.append_assoc, List.singleton_append]

/-- Two texts in a row, the first of them balanced. -/
theorem outside_append_of_balanced {before u v : List Char} (hu : Balanced u) :
    Outside p 0 before (u ++ v) ↔
      Outside p 0 before u ∧ Outside p 0 (u.reverse ++ before) v := by
  rw [outside_append, hu.settled, Int.add_zero]

theorem outside_of_forall {d : Int} {before cs : List Char} (h : ∀ c ∈ cs, ∀ b, p b c) :
    Outside p d before cs := by
  induction cs generalizing d before with
  | nil => trivial
  | cons c cs ih =>
    exact ⟨fun _ => h c (by simp) before, ih fun x hx => h x (List.mem_cons_of_mem c hx)⟩

theorem Outside.imp {q : List Char → Char → Prop} {d : Int} {before cs : List Char}
    (h : Outside p d before cs) (hpq : ∀ b, ∀ c ∈ cs, p b c → q b c) : Outside q d before cs := by
  induction cs generalizing d before with
  | nil => trivial
  | cons c cs ih =>
    obtain ⟨hc, hrest⟩ := h
    exact ⟨fun hd => hpq before c (by simp) (hc hd),
      ih hrest fun b x hx => hpq b x (List.mem_cons_of_mem c hx)⟩

/-- Nothing of a covered text is outside when a bracket more is open. -/
theorem Covered.outside {d k : Int} {before cs : List Char} (h : Covered d cs) (hd : 0 ≤ d)
    (hk : d < k) : Outside p k before cs := by
  induction cs generalizing d k before with
  | nil => trivial
  | cons c cs ih =>
    obtain ⟨h0, hrest⟩ := h
    exact ⟨fun e => by omega, ih hrest h0 (by omega)⟩

/-- Of a group, the bracket that opens it is the one place outside. -/
theorem outside_group {before cs : List Char} (h : Balanced cs) (hp : p before '(') :
    Outside p 0 before ('(' :: (cs ++ [')'])) := by
  refine ⟨fun _ => hp, ?_⟩
  rw [outside_append, h.settled]
  refine ⟨h.covered.outside (by omega) (by simp), ?_⟩
  simp [Outside]

/-! ## Groups -/

/-- A covered text is taken whole, before what closes it. -/
theorem takeGroup?_append {cs : List Char} (rest : List Char) {d : Nat}
    (h : Covered d cs) :
    takeGroup? d (cs ++ rest) =
      (takeGroup? ((d : Int) + net cs).toNat rest).map fun q => (cs ++ q.1, q.2) := by
  induction cs generalizing d with
  | nil =>
    simp only [List.nil_append, net_nil, Int.add_zero, Int.toNat_natCast]
    exact (Option.map_id_apply ..).symm
  | cons c cs ih =>
    obtain ⟨h0, hrest⟩ := h
    have hmap : ∀ o : Option (List Char × List Char),
        (o.map fun q => (cs ++ q.1, q.2)).map (fun q => (c :: q.1, q.2)) =
          o.map fun q => (c :: cs ++ q.1, q.2) := by
      intro o
      cases o with
      | none => rfl
      | some q => rfl
    rw [List.cons_append, takeGroup?.eq_def, net_cons]
    dsimp only
    by_cases hopen : c = '('
    · subst hopen
      rw [weight_opening] at hrest ⊢
      have hd : (d : Int) + 1 = ((d + 1 : Nat) : Int) := by omega
      rw [if_pos rfl, ih (hd ▸ hrest), hmap, ← hd, Int.add_assoc]
    · rw [if_neg hopen]
      by_cases hclose : c = ')'
      · subst hclose
        rw [weight_closing] at h0 hrest ⊢
        rw [if_pos rfl]
        cases d with
        | zero =>
          exfalso
          simp at h0
        | succ inner =>
          have hd : ((inner + 1 : Nat) : Int) + -1 = (inner : Int) := by omega
          dsimp only
          rw [ih (hd ▸ hrest), hmap, ← hd, Int.add_assoc]
      · have hw := weight_eq_zero hopen hclose
        rw [hw, Int.add_zero] at hrest
        rw [if_neg hclose, ih hrest, hmap, hw, Int.zero_add]

theorem group?_of_balanced {cs : List Char} (h : Balanced cs) :
    group? ('(' :: (cs ++ [')'])) = some cs := by
  have htake := takeGroup?_append [')'] (d := 0) h.covered
  rw [h.settled] at htake
  have hclose : takeGroup? 0 [')'] = some ([], []) := by decide
  unfold group?
  simp only [htake, Int.natCast_zero, Int.add_zero, Int.toNat_zero, hclose, Option.map_some,
    List.append_nil]

theorem eq_of_takeGroup? {d : Nat} {cs inside rest : List Char}
    (h : takeGroup? d cs = some (inside, rest)) : cs = inside ++ ')' :: rest := by
  induction cs generalizing d inside rest with
  | nil => cases h
  | cons c cs ih =>
    have hstep : ∀ {k}, (takeGroup? k cs).map (fun q => (c :: q.1, q.2)) = some (inside, rest) →
        c :: cs = inside ++ ')' :: rest := by
      intro k hk
      rw [Option.map_eq_some_iff] at hk
      obtain ⟨q, hq, he⟩ := hk
      cases he
      rw [ih hq]
      rfl
    rw [takeGroup?.eq_def] at h
    dsimp only at h
    split at h
    · exact hstep h
    · split at h
      · rename_i hclose
        split at h
        · cases h
          rw [hclose]
          rfl
        · exact hstep h
      · exact hstep h

/-- A text that is one group. -/
theorem eq_of_group? {cs inside : List Char} (h : group? cs = some inside) :
    cs = '(' :: (inside ++ [')']) := by
  unfold group? at h
  split at h
  · rename_i cs'
    split at h
    · rename_i q ht
      cases h
      rw [eq_of_takeGroup? ht]
    · cases h
  · cases h

/-- What is taken closes the groups that are open inside. -/
theorem closes_of_takeGroup? {d : Nat} {cs inside rest : List Char}
    (h : takeGroup? d cs = some (inside, rest)) : Closes d inside := by
  induction cs generalizing d inside rest with
  | nil => cases h
  | cons c cs ih =>
    have hstep : ∀ {k : Nat}, (k : Int) = d + weight c →
        (takeGroup? k cs).map (fun q => (c :: q.1, q.2)) = some (inside, rest) →
        Closes d inside := by
      intro k hk h
      rw [Option.map_eq_some_iff] at h
      obtain ⟨q, hq, he⟩ := h
      cases he
      exact Closes.cons (by omega) (hk ▸ ih hq)
    rw [takeGroup?.eq_def] at h
    dsimp only at h
    split at h
    · rename_i hopen
      exact hstep (by rw [hopen, weight_opening]; rfl) h
    · rename_i hopen
      split at h
      · rename_i hclose
        split at h
        · cases h
          exact ⟨rfl, trivial⟩
        · exact hstep (by rw [hclose, weight_closing]; omega) h
      · rename_i hclose
        exact hstep (by rw [weight_eq_zero hopen hclose]; omega) h

/-- The text between the brackets of a group is balanced. -/
theorem balanced_of_group? {cs inside : List Char} (h : group? cs = some inside) :
    Balanced inside := by
  unfold group? at h
  split at h
  · split at h
    · rename_i ht
      cases h
      exact (closes_zero_iff _).mp (closes_of_takeGroup? ht)
    · cases h
  · cases h

/-! ## Arguments -/

/-- No comma stands outside all brackets. -/
def NoOuterComma (cs : List Char) : Prop := ∀ before, Outside (fun _ c => c ≠ ',') 0 before cs

theorem cutArguments_ne_nil (d : Int) (cs : List Char) : cutArguments d cs ≠ [] := by
  have hcons : ∀ (c : Char) (l : List (List Char)), consFirst c l ≠ [] := by
    intro c l
    cases l with
    | nil => simp [consFirst]
    | cons a l => simp [consFirst]
  cases cs with
  | nil => simp [cutArguments]
  | cons c cs =>
    unfold cutArguments
    split
    · exact hcons _ _
    · split
      · exact hcons _ _
      · split
        · simp
        · exact hcons _ _

/-- A character that is no outer comma goes to the first piece. -/
theorem cutArguments_cons {d : Int} {c : Char} (cs : List Char) (h : d = 0 → c ≠ ',') :
    cutArguments d (c :: cs) = consFirst c (cutArguments (d + weight c) cs) := by
  rw [cutArguments]
  split
  · rename_i hopen
    subst hopen
    rfl
  · rename_i hopen
    split
    · rename_i hclose
      subst hclose
      rfl
    · rename_i hclose
      rw [if_neg fun hc => h hc.2 hc.1, weight_eq_zero hopen hclose, Int.add_zero]

theorem cutArguments_comma (cs : List Char) :
    cutArguments 0 (',' :: cs) = [] :: cutArguments 0 cs := by
  rw [cutArguments]
  simp

theorem cutArguments_append {d : Int} {before u : List Char} (rest : List Char)
    (h : Outside (fun _ c => c ≠ ',') d before u) {first : List Char} {l : List (List Char)}
    (hrest : cutArguments (d + net u) rest = first :: l) :
    cutArguments d (u ++ rest) = (u ++ first) :: l := by
  induction u generalizing d before with
  | nil => simpa using hrest
  | cons c u ih =>
    obtain ⟨hc, hu⟩ := h
    rw [net_cons, ← Int.add_assoc] at hrest
    rw [List.cons_append, cutArguments_cons _ hc, ih hu hrest]
    rfl

/-- Pieces without outer commas are what their joined text is cut into. -/
theorem cutArguments_intercalate {pieces : List (List Char)} (hne : pieces ≠ [])
    (hb : ∀ a ∈ pieces, Balanced a) (hc : ∀ a ∈ pieces, NoOuterComma a) :
    cutArguments 0 ([','].intercalate pieces) = pieces := by
  induction pieces with
  | nil => exact absurd rfl hne
  | cons a rest ih =>
    have ha := (hb a (by simp)).settled
    cases rest with
    | nil =>
      have hnil : cutArguments (0 + net a) [] = [] :: [] := rfl
      have := cutArguments_append [] (hc a (by simp) []) hnil
      simpa using this
    | cons b rest =>
      have htail := ih (by simp) (fun x hx => hb x (List.mem_cons_of_mem a hx))
        (fun x hx => hc x (List.mem_cons_of_mem a hx))
      have hcomma : cutArguments (0 + net a) (',' :: [','].intercalate (b :: rest)) =
          [] :: b :: rest := by
        rw [ha, Int.add_zero, cutArguments_comma, htail]
      have := cutArguments_append _ (hc a (by simp) []) hcomma
      simpa [List.intercalate] using this

/-- Cut or not, the text is its pieces with commas between them. -/
theorem intercalate_cutArguments (d : Int) (cs : List Char) :
    [','].intercalate (cutArguments d cs) = cs := by
  have hcons : ∀ (c : Char) {l : List (List Char)}, l ≠ [] →
      [','].intercalate (consFirst c l) = c :: [','].intercalate l := by
    intro c l hl
    cases l with
    | nil => exact absurd rfl hl
    | cons a l =>
      cases l with
      | nil => simp [consFirst]
      | cons b l => simp [consFirst, List.intercalate]
  induction cs generalizing d with
  | nil => simp [cutArguments]
  | cons c cs ih =>
    by_cases h : d = 0 → c ≠ ','
    · rw [cutArguments_cons cs h, hcons c (cutArguments_ne_nil _ cs), ih]
    · obtain ⟨hd, hc⟩ := Classical.not_imp.mp h
      obtain rfl := hd
      obtain rfl := Classical.not_not.mp hc
      obtain ⟨a, l, hl⟩ := List.exists_cons_of_ne_nil (cutArguments_ne_nil 0 cs)
      have hrest := ih 0
      rw [hl] at hrest
      rw [cutArguments_comma, hl]
      simpa [List.intercalate] using hrest

end Worksheet.Expression
