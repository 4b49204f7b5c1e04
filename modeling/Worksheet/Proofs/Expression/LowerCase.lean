-- Expressions in lower case. An exponent mark and a letter of a name are known
-- in either case, and everything else that the scans look for has no case. So a
-- text in lower case is cut where the text is cut, and its tree is the tree of
-- the text with names in lower case.
import Worksheet.Proofs.Double.LowerCase
import Worksheet.Proofs.Expression.Completeness

namespace Worksheet.Expression

open Text (lower lower_nil lower_cons lower_append lower_reverse toLower_eq_iff toLower_ofList trim)

/-! ## Operators -/

theorem leadsOperand_toLower (c : Char) : leadsOperand c.toLower = leadsOperand c :=
  Text.apply_toLower (by decide) c

theorem isNameStart_toLower (c : Char) : isNameStart c.toLower = isNameStart c :=
  Text.apply_toLower (by decide) c

theorem isNamePart_toLower (c : Char) : isNamePart c.toLower = isNamePart c :=
  Text.apply_toLower (by decide) c

theorem isSignPosition_lower (before : List Char) :
    isSignPosition (lower before) = isSignPosition before := by
  have hspace : ∀ c : Char, (c.toLower == ' ') = (c == ' ') :=
    Text.apply_toLower (p := (· == ' ')) (by decide)
  unfold isSignPosition
  rw [Text.dropWhile_lower hspace]
  cases before.dropWhile (· == ' ') with
  | nil => rfl
  | cons c _ => exact leadsOperand_toLower c

theorem endsAtExponent_lower (before : List Char) :
    endsAtExponent (lower before) = endsAtExponent before := by
  have hmark : ∀ c : Char, (c.toLower == 'e' || c.toLower == 'E') = (c == 'e' || c == 'E') :=
    Text.apply_toLower (p := fun c => c == 'e' || c == 'E') (by decide)
  have hpoint : ∀ c : Char, (c.toLower == '.') = (c == '.') :=
    Text.apply_toLower (p := (· == '.')) (by decide)
  match before with
  | [] => rfl
  | [_] => rfl
  | e :: d :: _ =>
    rw [lower_cons, lower_cons, endsAtExponent.eq_def, endsAtExponent.eq_def]
    dsimp only
    rw [hmark, Text.looksLikeDigit_toLower, hpoint]

theorem beginsWithSign_lower (cs : List Char) : beginsWithSign (lower cs) = beginsWithSign cs := by
  have hsign : ∀ cs : List Char,
      beginsWithSign cs = (cs.head?.any fun c => c == '+' || c == '-') := by
    intro cs
    unfold beginsWithSign
    split
    · rfl
    · rfl
    · rename_i hplus hminus
      cases cs with
      | nil => rfl
      | cons c cs =>
        have hp : c ≠ '+' := fun h => hplus cs (h ▸ rfl)
        have hm : c ≠ '-' := fun h => hminus cs (h ▸ rfl)
        simp [hp, hm]
  rw [hsign, hsign]
  cases cs with
  | nil => rfl
  | cons c cs => exact Text.apply_toLower (p := fun c => c == '+' || c == '-') (by decide) c

theorem doubleComparison?_toLower (a b : Char) :
    doubleComparison? a.toLower b.toLower = doubleComparison? a b := by
  unfold doubleComparison?
  simp (disch := decide) only [toLower_eq_iff]

/-- The neighbours of a comparison matter by their first character. -/
theorem singleComparison?_eq (before : List Char) (c : Char) (after : List Char) :
    singleComparison? before c after =
      if c = '>' ∨ c = '<' then
        if after.head? = some '=' ∨ after.head? = some '>' then none
        else some (if c = '>' then .greater else .less)
      else if c = '=' then
        if before.head? = some '>' ∨ before.head? = some '<' ∨ before.head? = some '!' ∨
          before.head? = some '=' then none
        else some .equal
      else none := by
  unfold singleComparison?
  split
  · split
    · rw [if_pos (by simp)]
    · rw [if_pos (by simp)]
    · rename_i heq hgt
      cases after with
      | nil => rfl
      | cons a after =>
        have he : a ≠ '=' := fun h => heq after (h ▸ rfl)
        have hg : a ≠ '>' := fun h => hgt after (h ▸ rfl)
        have hnone : ¬ ((a :: after).head? = some '=' ∨ (a :: after).head? = some '>') := by
          simp [he, hg]
        rw [if_neg hnone]
  · split
    · split
      · rw [if_pos (by simp)]
      · rw [if_pos (by simp)]
      · rw [if_pos (by simp)]
      · rw [if_pos (by simp)]
      · rename_i hgt hlt hnot heq
        cases before with
        | nil => rfl
        | cons b before =>
          have hg : b ≠ '>' := fun h => hgt before (h ▸ rfl)
          have hl : b ≠ '<' := fun h => hlt before (h ▸ rfl)
          have hn : b ≠ '!' := fun h => hnot before (h ▸ rfl)
          have he : b ≠ '=' := fun h => heq before (h ▸ rfl)
          rw [if_neg (by simp [hg, hl, hn, he])]
    · rfl

theorem head?_lower_eq_iff {cs : List Char} {x : Char} (hx : Text.IsMark x) :
    (lower cs).head? = some x ↔ cs.head? = some x := by
  cases cs with
  | nil => rfl
  | cons c cs => simp [toLower_eq_iff hx]

theorem singleComparison?_lower (before : List Char) (c : Char) (after : List Char) :
    singleComparison? (lower before) c.toLower (lower after) =
      singleComparison? before c after := by
  rw [singleComparison?_eq, singleComparison?_eq]
  simp (disch := decide) only [toLower_eq_iff, head?_lower_eq_iff]

theorem operatorAt?_lower (cls : Precedence) (before : List Char) (c : Char) (after : List Char) :
    operatorAt? cls (lower before) c.toLower (lower after) =
      (operatorAt? cls before c after).map (Prod.map id lower) := by
  cases cls with
  | comparison =>
    have hsingle : ∀ b : List Char, (singleComparison? (lower b) c.toLower (lower after)).map
        (fun op => (Operator.comparison op, lower b)) =
        ((singleComparison? b c after).map fun op => (Operator.comparison op, b)).map
          (Prod.map id lower) := by
      intro b
      rw [singleComparison?_lower, Option.map_map]
      rfl
    cases before with
    | nil => exact hsingle []
    | cons p rest =>
      rw [lower_cons, operatorAt?.eq_def, operatorAt?.eq_def]
      dsimp only
      rw [doubleComparison?_toLower]
      cases doubleComparison? p c with
      | some op => rfl
      | none => exact hsingle (p :: rest)
  | _ =>
    rw [operatorAt?.eq_def, operatorAt?.eq_def]
    dsimp only
    simp (disch := decide) only [endsAtExponent_lower, toLower_eq_iff]
    split_ifs <;> rfl

theorem binaryAt?_lower (cls : Precedence) (before : List Char) (c : Char) (after : List Char) :
    binaryAt? cls (lower before) c.toLower (lower after) =
      (binaryAt? cls before c after).map (Prod.map id lower) := by
  have hplace : (fun p : Operator × List Char => !isSignPosition p.2) ∘ Prod.map id lower =
      fun p => !isSignPosition p.2 := by
    funext p
    exact congrArg not (isSignPosition_lower p.2)
  unfold binaryAt?
  rw [operatorAt?_lower, Option.filter_map, hplace]

/-! ## Cuts -/

/-- The cut with both operands in lower case. -/
def Split.lower (s : Split) : Split := ⟨Text.lower s.left, s.operator, Text.lower s.right⟩

theorem splitAt?_lower (before : List Char) (op : Operator) (after : List Char) :
    splitAt? (lower before) op (lower after) = (splitAt? before op after).map Split.lower := by
  have hempty : ∀ cs : List Char, (lower cs).isEmpty = cs.isEmpty := fun cs => by
    cases cs <;> rfl
  unfold splitAt?
  rw [← lower_reverse, Text.trim_lower, Text.trim_lower]
  dsimp only
  rw [hempty, hempty]
  split <;> rfl

theorem cutHere?_lower (cls : Precedence) (before : List Char) (c : Char) (after : List Char) :
    cutHere? cls (lower before) c.toLower (lower after) =
      (cutHere? cls before c after).map Split.lower := by
  unfold cutHere?
  rw [binaryAt?_lower]
  cases binaryAt? cls before c after with
  | none => rfl
  | some b => exact splitAt?_lower b.2 b.1 after

theorem weight_toLower (c : Char) : weight c.toLower = weight c := by
  unfold weight
  simp (disch := decide) only [toLower_eq_iff]

theorem lastSplit?_lower (cls : Precedence) (back after : List Char) (d : Int) :
    lastSplit? cls (lower back) (lower after) d =
      (lastSplit? cls back after d).map Split.lower := by
  induction back generalizing after d with
  | nil => rfl
  | cons c back ih =>
    have hrest := ih (c :: after) (d - weight c)
    rw [lower_cons] at hrest
    rw [lower_cons, lastSplit?_step, lastSplit?_step, weight_toLower, cutHere?_lower, hrest]
    split_ifs with hcut
    · rw [Option.map_or]
    · rfl

theorem firstPower?_lower (before after : List Char) (d : Int) :
    firstPower? (lower before) (lower after) d = (firstPower? before after d).map Split.lower := by
  induction after generalizing before d with
  | nil => rfl
  | cons c after ih =>
    have hrest : ∀ k, firstPower? (c.toLower :: lower before) (lower after) k =
        (firstPower? (c :: before) after k).map Split.lower := ih (c :: before)
    rw [lower_cons, firstPower?, firstPower?]
    simp (disch := decide) only [toLower_eq_iff, hrest, binaryAt?_lower, ← lower_reverse,
      Text.trim_lower, beginsWithSign_lower, splitAt?_lower]
    split
    · rfl
    · split
      · rfl
      · split
        · rfl
        · cases binaryAt? .power before c after with
          | none => rfl
          | some b =>
            dsimp only [Option.map_some, Prod.map, id]
            split
            · rfl
            · cases splitAt? before b.1 after with
              | none => rfl
              | some s => rfl

theorem split?_lower (e : List Char) : split? (lower e) = (split? e).map Split.lower := by
  have hlast : ∀ cls, lastSplit? cls (lower e).reverse [] 0 =
      (lastSplit? cls e.reverse [] 0).map Split.lower := by
    intro cls
    rw [← lower_reverse]
    exact lastSplit?_lower cls e.reverse [] 0
  have hfirst : firstPower? [] (lower e) 0 = (firstPower? [] e 0).map Split.lower :=
    firstPower?_lower [] e 0
  unfold split?
  rw [hlast, hlast, hlast, hfirst]
  cases lastSplit? .comparison e.reverse [] 0 with
  | some s => rfl
  | none =>
    cases lastSplit? .additive e.reverse [] 0 with
    | some s => rfl
    | none =>
      cases lastSplit? .multiplicative e.reverse [] 0 with
      | some s => rfl
      | none => rfl

/-! ## Groups and calls -/

theorem takeGroup?_lower (d : Nat) (cs : List Char) :
    takeGroup? d (lower cs) = (takeGroup? d cs).map (Prod.map lower lower) := by
  induction cs generalizing d with
  | nil => rfl
  | cons c cs ih =>
    have hstep : ∀ k, ((takeGroup? k cs).map (Prod.map lower lower)).map
        (fun p => (c.toLower :: p.1, p.2)) =
        ((takeGroup? k cs).map fun p => (c :: p.1, p.2)).map (Prod.map lower lower) := by
      intro k
      rw [Option.map_map, Option.map_map]
      rfl
    rw [lower_cons, takeGroup?.eq_def, takeGroup?.eq_def]
    simp (disch := decide) only [toLower_eq_iff, ih, hstep]
    split
    · rfl
    · split
      · cases d with
        | zero => rfl
        | succ k => rfl
      · rfl

theorem group?_of_ne {c : Char} (cs : List Char) (hc : c ≠ '(') : group? (c :: cs) = none := by
  cases hg : group? (c :: cs) with
  | none => rfl
  | some inside => exact absurd (List.cons.inj (eq_of_group? hg)).1 hc

theorem group?_lower (e : List Char) : group? (lower e) = (group? e).map lower := by
  cases e with
  | nil => rfl
  | cons c cs =>
    by_cases hc : c = '('
    · subst hc
      change group? ('(' :: lower cs) = _
      rw [group?, group?, takeGroup?_lower]
      rcases takeGroup? 0 cs with _ | ⟨inside, _ | ⟨b, rest⟩⟩
      · rfl
      · rfl
      · rfl
    · have hlow : c.toLower ≠ '(' := fun h => hc ((toLower_eq_iff (by decide)).mp h)
      rw [lower_cons, group?_of_ne _ hlow, group?_of_ne _ hc]
      rfl

theorem callOf?_lower (e : List Char) :
    callOf? (lower e) = (callOf? e).map (Prod.map lower lower) := by
  have htake := Text.takeWhile_lower isNamePart_toLower e
  have hdrop := Text.dropWhile_lower isNamePart_toLower e
  have hstart : Text.trimStart (lower (e.dropWhile isNamePart)) =
      lower (Text.trimStart (e.dropWhile isNamePart)) := Text.dropWhile_lower Text.isBlank_toLower _
  cases e with
  | nil => rfl
  | cons c cs =>
    rw [lower_cons] at htake hdrop ⊢
    unfold callOf?
    dsimp only
    rw [htake, hdrop, hstart, group?_lower, isNameStart_toLower]
    split
    · rw [Option.map_map, Option.map_map]
      rfl
    · rfl

theorem consFirst_lower (c : Char) (l : List (List Char)) :
    consFirst c.toLower (l.map lower) = (consFirst c l).map lower := by
  cases l <;> rfl

theorem cutArguments_lower (d : Int) (cs : List Char) :
    cutArguments d (lower cs) = (cutArguments d cs).map lower := by
  induction cs generalizing d with
  | nil => rfl
  | cons c cs ih =>
    rw [lower_cons, cutArguments, cutArguments]
    simp (disch := decide) only [toLower_eq_iff, ih, consFirst_lower]
    split_ifs <;> rfl

theorem arguments_lower (args : List Char) :
    arguments (lower args) = (arguments args).map lower := by
  unfold arguments Text.isEmptyOrBlank
  rw [Text.all_lower Text.isBlank_toLower, cutArguments_lower]
  split <;> rfl

/-! ## Leaves -/

/-- A run of digits has no case. -/
theorem lower_of_isDigitRun {e : List Char} (h : Text.isDigitRun e = true) : lower e = e := by
  unfold Text.isDigitRun at h
  rw [Bool.and_eq_true, List.all_eq_true] at h
  have hself : ∀ c ∈ e, c.toLower = id c := fun c hc => Text.toLower_of_isDecimalDigit (h.2 c hc)
  unfold lower
  rw [List.map_congr_left hself, List.map_id]

theorem isDigitRun_lower (e : List Char) : Text.isDigitRun (lower e) = Text.isDigitRun e := by
  unfold Text.isDigitRun
  rw [Text.all_lower Text.isDecimalDigit_toLower]
  cases e <;> rfl

theorem numberOf?_lower (e : List Char) : numberOf? (lower e) = numberOf? e := by
  unfold numberOf?
  rw [Double.read?_lower, isDigitRun_lower, Text.length_lower]
  cases Double.read? e with
  | none => rfl
  | some x =>
    dsimp only
    split
    · rename_i hrun
      rw [lower_of_isDigitRun hrun.1]
    · rfl

theorem ofName?_lower (e : List Char) :
    Constant.ofName? (String.ofList (lower e)) = Constant.ofName? (String.ofList e) := by
  unfold Constant.ofName?
  rw [← toLower_ofList, Text.upper_toLower]

/-! ## Trees -/

/-- The fault with the text that it quotes in lower case. -/
def lowerFault : Fault → Fault
  | .unbalanced text => .unbalanced text.toLower
  | .unknownSymbol text => .unknownSymbol text.toLower
  | f => f

mutual

/-- The tree with the names of its calls in lower case. -/
def lowered : Expression → Expression
  | .number n => .number n
  | .constant k => .constant k
  | .malformed f => .malformed (lowerFault f)
  | .negative e => .negative (lowered e)
  | .positive e => .positive (lowered e)
  | .binary op l r => .binary op (lowered l) (lowered r)
  | .call name args => .call name.toLower (loweredAll args)

def loweredAll : List Expression → List Expression
  | [] => []
  | e :: rest => lowered e :: loweredAll rest

end

theorem loweredAll_eq_map (args : List Expression) : loweredAll args = args.map lowered := by
  induction args with
  | nil => rfl
  | cons e rest ih => rw [loweredAll, ih, List.map_cons]

theorem leaf_lower (e : List Char) : leaf (lower e) = (leaf e).lowered := by
  unfold leaf
  rw [numberOf?_lower, ofName?_lower]
  cases numberOf? e with
  | some n => rfl
  | none =>
    cases Constant.ofName? (String.ofList e) with
    | some k => rfl
    | none =>
      exact congrArg (fun s => Expression.malformed (.unknownSymbol s)) (toLower_ofList e).symm

/-- The tree of a text in lower case is the tree of the text with names in
lower case. -/
theorem parse_lower (text : List Char) : parse (lower text) = (parse text).lowered := by
  induction hn : text.length using Nat.strongRecOn generalizing text with
  | ind n ih =>
    subst hn
    have hlen := Text.length_trim_le text
    have hminus : ∀ {c : Char}, c.toLower = '-' ↔ c = '-' := toLower_eq_iff (by decide)
    rw [parse_eq, parse_eq, Text.trim_lower]
    cases ht : Text.trim text with
    | nil => rfl
    | cons c rest =>
      rw [ht] at hlen
      have hshort : ∀ t : List Char, t.length < (c :: rest).length →
          parse (lower t) = (parse t).lowered := fun t h => ih t.length (by omega) t rfl
      have hsplit := split?_lower (c :: rest)
      have hgroup := group?_lower (c :: rest)
      have hcall := callOf?_lower (c :: rest)
      have hleaf := leaf_lower (c :: rest)
      have hname := toLower_ofList (c :: rest)
      rw [lower_cons] at hsplit hgroup hcall hleaf hname ⊢
      dsimp only
      rw [hsplit, hgroup, hcall, hleaf, ← hname]
      simp (disch := decide) only [toLower_eq_iff]
      cases hs : split? (c :: rest) with
      | some s =>
        obtain ⟨hl, hr⟩ := length_of_split? hs
        exact congr (congrArg (Expression.binary s.operator) (hshort _ hl)) (hshort _ hr)
      | none =>
        dsimp only [Option.map_none]
        split
        · cases hg : group? (c :: rest) with
          | some inside => exact hshort inside (length_of_group? hg)
          | none => rfl
        · cases hc : callOf? (c :: rest) with
          | some call =>
            obtain ⟨name, args⟩ := call
            have hargs : ((arguments args).map lower).map parse =
                ((arguments args).map parse).map lowered := by
              rw [List.map_map, List.map_map]
              exact List.map_congr_left fun a ha =>
                hshort a (Nat.lt_of_le_of_lt (length_of_mem_arguments a ha) (length_of_callOf? hc))
            dsimp only [Option.map_some, Prod.map]
            rw [arguments_lower, hargs, lowered, loweredAll_eq_map, toLower_ofList]
          | none =>
            dsimp only [Option.map_none]
            split
            · exact congrArg Expression.negative (hshort rest (by simp))
            · split
              · exact congrArg Expression.positive (hshort rest (by simp))
              · rfl

end Worksheet.Expression
