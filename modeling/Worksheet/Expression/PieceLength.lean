-- The pieces of an expression are shorter than the whole. Cutting at an
-- operator, a bracket or a call always leaves less text, so it comes to an
-- end.
import Worksheet.Expression.Split

namespace Worksheet.Expression

/-! ## Operands -/

theorem length_of_operatorAt? {cls : Precedence} {before after b : List Char} {c : Char}
    {op : Operator} (h : operatorAt? cls before c after = some (op, b)) :
    b.length ≤ before.length := by
  have here : ∀ {o : Operator}, some (o, before) = some (op, b) → b.length ≤ before.length := by
    intro o h
    simp only [Option.some.injEq, Prod.mk.injEq] at h
    exact h.2 ▸ Nat.le_refl _
  have single : (singleComparison? before c after).map
      (fun op => (Operator.comparison op, before)) = some (op, b) → b.length ≤ before.length := by
    intro h
    rw [Option.map_eq_some_iff] at h
    obtain ⟨_, _, he⟩ := h
    exact here (congrArg some he)
  cases cls with
  | comparison =>
    rw [operatorAt?.eq_def] at h
    cases before with
    | nil => exact single h
    | cons p rest =>
      dsimp only at h
      split at h
      · simp only [Option.some.injEq, Prod.mk.injEq] at h
        exact h.2 ▸ Nat.le_succ _
      · exact single h
  | additive =>
    simp only [operatorAt?] at h
    split at h
    · simp at h
    · split at h
      · exact here h
      · split at h
        · exact here h
        · simp at h
  | multiplicative =>
    simp only [operatorAt?] at h
    split at h
    · exact here h
    · split at h
      · exact here h
      · split at h
        · exact here h
        · simp at h
  | power =>
    simp only [operatorAt?] at h
    split at h
    · exact here h
    · simp at h

theorem length_of_binaryAt? {cls : Precedence} {before after b : List Char} {c : Char}
    {op : Operator} (h : binaryAt? cls before c after = some (op, b)) :
    b.length ≤ before.length := by
  rw [binaryAt?, Option.filter_eq_some_iff] at h
  exact length_of_operatorAt? h.1

theorem length_of_splitAt? {before after : List Char} {op : Operator} {s : Split}
    (h : splitAt? before op after = some s) :
    s.left.length ≤ before.length ∧ s.right.length ≤ after.length := by
  simp only [splitAt?] at h
  split at h
  · simp at h
  · simp only [Option.some.injEq] at h
    subst h
    have h1 := Text.length_trim_le before.reverse
    rw [List.length_reverse] at h1
    exact ⟨h1, Text.length_trim_le after⟩

theorem length_of_lastSplit? {cls : Precedence} {back after : List Char} {d : Int}
    {s : Split} (h : lastSplit? cls back after d = some s) :
    s.left.length < back.length + after.length
      ∧ s.right.length < back.length + after.length := by
  fun_induction lastSplit? cls back after d with
  | case1 => simp at h
  | case2 => simp at h
  | case3 after d p before ih =>
    have := ih h
    simp only [List.length_cons] at *
    omega
  | case4 after d p before _ ih =>
    have := ih h
    simp only [List.length_cons] at *
    omega
  | case5 after d c p before _ _ _ ih =>
    have := ih h
    simp only [List.length_cons] at *
    omega
  | case6 after d c p before _ _ _ t ht =>
    simp only [Option.some.injEq] at h
    subst h
    rw [Option.bind_eq_some_iff] at ht
    obtain ⟨⟨op, b⟩, hb, hs⟩ := ht
    have h1 := length_of_binaryAt? hb
    have h2 := length_of_splitAt? hs
    simp only [List.length_cons] at *
    omega
  | case7 after d c p before _ _ _ _ ih =>
    have := ih h
    simp only [List.length_cons] at *
    omega

theorem length_of_firstPower? {back after : List Char} {d : Int} {s : Split}
    (h : firstPower? back after d = some s) :
    s.left.length < back.length + after.length
      ∧ s.right.length < back.length + after.length := by
  fun_induction firstPower? back after d with
  | case1 => simp at h
  | case2 back after d ih =>
    have := ih h
    simp only [List.length_cons] at *
    omega
  | case3 back after d _ ih =>
    have := ih h
    simp only [List.length_cons] at *
    omega
  | case4 back d c after _ _ _ ih =>
    have := ih h
    simp only [List.length_cons] at *
    omega
  | case5 back d c after _ _ _ _ ih =>
    have := ih h
    simp only [List.length_cons] at *
    omega
  | case6 => simp at h
  | case7 back d c after _ _ _ op b hb _ t ht =>
    simp only [Option.some.injEq] at h
    subst h
    have h2 := length_of_splitAt? ht
    simp only [List.length_cons] at *
    omega
  | case8 back d c after _ _ _ op b hb _ _ ih =>
    have := ih h
    simp only [List.length_cons] at *
    omega

/-- Both operands of a cut are shorter than the text. -/
theorem length_of_split? {e : List Char} {s : Split} (h : split? e = some s) :
    s.left.length < e.length ∧ s.right.length < e.length := by
  have back : ∀ {cls t}, lastSplit? cls e.reverse [] 0 = some t →
      t.left.length < e.length ∧ t.right.length < e.length := by
    intro cls t ht
    simpa using length_of_lastSplit? ht
  simp only [split?] at h
  split at h
  · rename_i t ht
    exact Option.some.inj h ▸ back ht
  · split at h
    · rename_i t ht
      exact Option.some.inj h ▸ back ht
    · split at h
      · rename_i t ht
        exact Option.some.inj h ▸ back ht
      · simpa using length_of_firstPower? h

/-! ## Groups and calls -/

theorem length_of_takeGroup? {n : Nat} {cs inside rest : List Char}
    (h : takeGroup? n cs = some (inside, rest)) : inside.length < cs.length := by
  induction cs generalizing n inside rest with
  | nil => simp [takeGroup?] at h
  | cons c cs ih =>
    have step : ∀ {k}, (takeGroup? k cs).map (fun p => (c :: p.1, p.2)) = some (inside, rest) →
        inside.length < (c :: cs).length := by
      intro k hk
      rw [Option.map_eq_some_iff] at hk
      obtain ⟨⟨i, r⟩, hp, he⟩ := hk
      simp only [Prod.mk.injEq] at he
      have := ih hp
      rw [← he.1]
      simpa using this
    rw [takeGroup?.eq_def] at h
    dsimp only at h
    split at h
    · exact step h
    · split at h
      · split at h
        · simp only [Option.some.injEq, Prod.mk.injEq] at h
          rw [← h.1]
          simp
        · exact step h
      · exact step h

theorem length_of_group? {e inside : List Char} (h : group? e = some inside) :
    inside.length < e.length := by
  unfold group? at h
  split at h
  · split at h
    · rename_i _ _ ht
      have := length_of_takeGroup? ht
      simp only [Option.some.injEq] at h
      subst h
      simp only [List.length_cons]
      omega
    · simp at h
  · simp at h

theorem length_of_callOf? {e name args : List Char} (h : callOf? e = some (name, args)) :
    args.length < e.length := by
  unfold callOf? at h
  split at h
  · simp at h
  · rename_i c cs
    split at h
    · rw [Option.map_eq_some_iff] at h
      obtain ⟨a, ha, he⟩ := h
      simp only [Prod.mk.injEq] at he
      have h1 := length_of_group? ha
      have h2 := ((c :: cs).dropWhile_sublist isNamePart).length_le
      have h3 := (((c :: cs).dropWhile isNamePart).dropWhile_sublist Text.isBlank).length_le
      rw [← he.2]
      exact Nat.lt_of_lt_of_le h1 (Nat.le_trans h3 h2)
    · simp at h

theorem length_of_mem_consFirst {c : Char} {l : List (List Char)} {n : Nat}
    (h : ∀ a ∈ l, a.length ≤ n) : ∀ a ∈ consFirst c l, a.length ≤ n + 1 := by
  intro a ha
  cases l with
  | nil =>
    simp only [consFirst, List.mem_singleton] at ha
    subst ha
    simp
  | cons b rest =>
    simp only [consFirst, List.mem_cons] at ha
    rcases ha with rfl | ha
    · have := h b (by simp)
      simpa using this
    · exact Nat.le_succ_of_le (h a (by simp [ha]))

theorem length_of_mem_cutArguments {d : Int} {cs : List Char} :
    ∀ a ∈ cutArguments d cs, a.length ≤ cs.length := by
  induction cs generalizing d with
  | nil => simp [cutArguments]
  | cons c cs ih =>
    intro a ha
    rw [cutArguments] at ha
    split at ha
    · exact length_of_mem_consFirst ih a ha
    · split at ha
      · exact length_of_mem_consFirst ih a ha
      · split at ha
        · rw [List.mem_cons] at ha
          rcases ha with rfl | ha
          · simp
          · exact Nat.le_succ_of_le (ih a ha)
        · exact length_of_mem_consFirst ih a ha

/-- An argument of a call is shorter than the call. -/
theorem length_of_mem_arguments {args : List Char} :
    ∀ a ∈ arguments args, a.length ≤ args.length := by
  intro a ha
  unfold arguments at ha
  split at ha
  · simp at ha
  · exact length_of_mem_cutArguments a ha

end Worksheet.Expression
