-- Blanks of other kinds. A text with other blanks at the same places renders
-- the same trees, so it is read as the same tree unless it hides a sign. Of two
-- such texts the one that hides a sign has no value; apart from that their
-- values are equal.
import Worksheet.Proofs.Expression.Formed
import Worksheet.Proofs.Expression.Operation
import Mathlib.Data.List.Forall2

namespace Worksheet.Expression

open Text (trim trimStart isBlank AllBlank)

/-! ## Texts that differ in their blanks -/

/-- The texts have blanks at the same places, and are equal everywhere else. -/
def SameButBlanks (s t : List Char) : Prop :=
  List.Forall₂ (fun a b => a = b ∨ isBlank a = true ∧ isBlank b = true) s t

/-- The second text has any blanks in the place of some ASCII spaces of the
first. -/
def Respaced (s t : List Char) : Prop :=
  List.Forall₂ (fun a b => b = a ∨ a = ' ' ∧ isBlank b = true) s t

variable {s t u v cs : List Char}

theorem Respaced.sameButBlanks (h : Respaced s t) : SameButBlanks s t := by
  refine List.Forall₂.imp (fun a b hab => ?_) h
  rcases hab with rfl | ⟨rfl, hb⟩
  · exact Or.inl rfl
  · exact Or.inr ⟨rfl, hb⟩

theorem SameButBlanks.symm (h : SameButBlanks s t) : SameButBlanks t s := by
  refine List.Forall₂.flip (List.Forall₂.imp (fun a b hab => ?_) h)
  rcases hab with rfl | ⟨ha, hb⟩
  · exact Or.inl rfl
  · exact Or.inr ⟨hb, ha⟩

/-- A text related to two parts in a row is two parts in a row. -/
theorem exists_append_of_forall₂ {R : Char → Char → Prop} (h : List.Forall₂ R cs (u ++ v)) :
    ∃ u' v', cs = u' ++ v' ∧ List.Forall₂ R u' u ∧ List.Forall₂ R v' v :=
  ⟨_, _, (List.take_append_drop u.length cs).symm, List.forall₂_take_append _ _ _ h,
    List.forall₂_drop_append _ _ _ h⟩

theorem SameButBlanks.exists_append (h : SameButBlanks cs (u ++ v)) :
    ∃ u' v', cs = u' ++ v' ∧ SameButBlanks u' u ∧ SameButBlanks v' v := exists_append_of_forall₂ h

theorem SameButBlanks.exists_cons {c : Char} (h : SameButBlanks cs (c :: t))
    (hc : isBlank c = false) : ∃ t', cs = c :: t' ∧ SameButBlanks t' t := by
  cases h with
  | cons hab hrest =>
    rcases hab with rfl | ⟨-, hblank⟩
    · exact ⟨_, rfl, hrest⟩
    · rw [hc] at hblank
      cases hblank

/-- A text without blanks stays as it is. -/
theorem SameButBlanks.eq (h : SameButBlanks s t) (ht : ∀ c ∈ t, isBlank c = false) : s = t := by
  induction t generalizing s with
  | nil =>
    cases h
    rfl
  | cons c t ih =>
    rw [List.forall_mem_cons] at ht
    obtain ⟨s', rfl, hrest⟩ := h.exists_cons ht.1
    rw [ih hrest ht.2]

theorem SameButBlanks.isBlank_eq {a b : Char}
    (h : a = b ∨ isBlank a = true ∧ isBlank b = true) : isBlank a = isBlank b := by
  rcases h with rfl | ⟨ha, hb⟩
  · rfl
  · rw [ha, hb]

theorem SameButBlanks.allBlank (h : SameButBlanks s t) (ht : AllBlank t) : AllBlank s := by
  induction h with
  | nil => exact Text.allBlank_nil
  | cons hab _ ih =>
    unfold AllBlank at ht ⊢
    rw [List.forall_mem_cons] at ht ⊢
    exact ⟨(SameButBlanks.isBlank_eq hab).trans ht.1, ih ht.2⟩

theorem SameButBlanks.trimStart (h : SameButBlanks s t) :
    SameButBlanks (trimStart s) (trimStart t) := by
  unfold Text.trimStart
  induction h with
  | nil => exact .nil
  | @cons a b s t hab hrest ih =>
    have hblank := SameButBlanks.isBlank_eq hab
    cases hb : isBlank b with
    | true =>
      rw [List.dropWhile_cons_of_pos (hblank.trans hb), List.dropWhile_cons_of_pos hb]
      exact ih
    | false =>
      rw [List.dropWhile_cons_of_neg (by simp [hblank, hb]),
        List.dropWhile_cons_of_neg (by simp [hb])]
      exact .cons hab hrest

theorem SameButBlanks.trim (h : SameButBlanks s t) : SameButBlanks (trim s) (trim t) := by
  have hback := List.forall₂_reverse_iff.mpr h.trimStart
  unfold Text.trim
  rw [Text.trimEnd_eq, Text.trimEnd_eq]
  exact List.forall₂_reverse_iff.mpr (SameButBlanks.trimStart hback)

theorem SameButBlanks.body (h : SameButBlanks s t) : SameButBlanks (body s) (body t) := by
  have htrim := h.trim
  unfold Expression.body
  split
  · rename_i rest hs
    rw [hs] at htrim
    obtain ⟨rest', ht, hrest⟩ := htrim.symm.exists_cons (by decide)
    rw [ht]
    exact hrest.symm.trim
  · rename_i hs
    split
    · rename_i rest ht
      rw [ht] at htrim
      obtain ⟨rest', hs', -⟩ := htrim.exists_cons (by decide)
      exact absurd hs' (hs rest')
    · exact htrim

/-! ## Renderings with other blanks -/

variable {known : String → Prop}

theorem SameButBlanks.exists_arguments {args : List Argument}
    (hspaces : ∀ a ∈ args, AllBlank a.before ∧ AllBlank a.after)
    (hargs : ∀ a ∈ args, ∀ t, SameButBlanks t a.text →
      Renders (liberalWith known) .comparison t a.tree)
    (h : SameButBlanks cs (writtenAll args)) :
    ∃ l : List Argument, writtenAll l = cs ∧ l.map Argument.tree = args.map Argument.tree ∧
      (∀ a ∈ l, AllBlank a.before ∧ AllBlank a.after) ∧
      ∀ a ∈ l, Renders (liberalWith known) .comparison a.text a.tree := by
  induction args generalizing cs with
  | nil =>
    cases h
    exact ⟨[], rfl, rfl, by simp, by simp⟩
  | cons a rest ih =>
    rw [List.forall_mem_cons] at hspaces hargs
    have hone : ∀ {x : List Char}, SameButBlanks x a.written →
        ∃ b : Argument, b.written = x ∧ b.tree = a.tree ∧
          (AllBlank b.before ∧ AllBlank b.after) ∧
          Renders (liberalWith known) .comparison b.text b.tree := by
      intro x hx
      obtain ⟨y, after, rfl, hy, hafter⟩ := SameButBlanks.exists_append hx
      obtain ⟨before, text, rfl, hbefore, htext⟩ := hy.exists_append
      exact ⟨⟨before, text, after, a.tree⟩, rfl, rfl,
        ⟨hbefore.allBlank hspaces.1.1, hafter.allBlank hspaces.1.2⟩, hargs.1 text htext⟩
    cases rest with
    | nil =>
      obtain ⟨b, hb, htree, hblank, hrenders⟩ := hone (by simpa [writtenAll] using h)
      exact ⟨[b], by simp [writtenAll, hb], by simp [htree], by simpa using hblank,
        by simpa using hrenders⟩
    | cons a' rest =>
      have hsplit : SameButBlanks cs (a.written ++ (',' :: writtenAll (a' :: rest))) := by
        simpa [writtenAll, List.intercalate_cons_cons] using h
      obtain ⟨x, y, rfl, hx, hy⟩ := hsplit.exists_append
      obtain ⟨z, rfl, hz⟩ := hy.exists_cons (by decide)
      obtain ⟨b, rfl, htree, hblank, hrenders⟩ := hone hx
      obtain ⟨l, rfl, htrees, hblanks, hall⟩ := ih hspaces.2 hargs.2 hz
      have hne : l ≠ [] := by
        rintro rfl
        cases htrees
      obtain ⟨b', l', rfl⟩ := List.exists_cons_of_ne_nil hne
      refine ⟨b :: b' :: l', by simp [writtenAll, List.intercalate_cons_cons], ?_, ?_, ?_⟩
      · rw [List.map_cons, htree, htrees]
        rfl
      · rw [List.forall_mem_cons]
        exact ⟨hblank, hblanks⟩
      · rw [List.forall_mem_cons]
        exact ⟨hrenders, hall⟩

/-- With other blanks the text renders the same tree. -/
theorem Renders.sameButBlanks {lvl : Level} {e : Expression}
    (h : Renders (liberalWith known) lvl t e) (hcs : SameButBlanks s t) :
    Renders (liberalWith known) lvl s e := by
  induction h generalizing s with
  | leaf h =>
    obtain rfl := hcs.eq fun c hc => (h.word.writes c hc).1
    exact .leaf h
  | @group sp sp' cs e hsp hsp' _ ih =>
    obtain ⟨w, rfl, hw⟩ := hcs.exists_cons (by decide)
    obtain ⟨x, z, rfl, hx, hz⟩ := hw.exists_append
    obtain ⟨u, tp', rfl, hu, htp'⟩ := hx.exists_append
    obtain ⟨tp, y, rfl, htp, hy⟩ := hu.exists_append
    obtain rfl := hz.eq (by decide)
    exact Renders.group (g := liberalWith known) (htp.allBlank hsp) (htp'.allBlank hsp') (ih hy)
  | @emptyCall name sp sp' hname hsp hsp' =>
    obtain ⟨x, y, rfl, hx, hy⟩ := hcs.exists_append
    obtain ⟨n, tp, rfl, hn, htp⟩ := hx.exists_append
    obtain ⟨u, rfl, hu⟩ := hy.exists_cons (by decide)
    obtain ⟨tp', z, rfl, htp', hz⟩ := hu.exists_append
    obtain rfl := hz.eq (by decide)
    obtain rfl := hn.eq fun c hc => isBlank_of_isNamePart (hname.1.isNamePart c hc)
    exact Renders.emptyCall (g := liberalWith known) hname (htp.allBlank hsp) (htp'.allBlank hsp')
  | @call name sp args hname hsp hne hspaces _ ih =>
    obtain ⟨x, y, rfl, hx, hy⟩ := hcs.exists_append
    obtain ⟨n, tp, rfl, hn, htp⟩ := hx.exists_append
    obtain ⟨u, rfl, hu⟩ := hy.exists_cons (by decide)
    obtain ⟨w, z, rfl, hw, hz⟩ := hu.exists_append
    obtain rfl := hz.eq (by decide)
    obtain rfl := hn.eq fun c hc => isBlank_of_isNamePart (hname.1.isNamePart c hc)
    obtain ⟨l, rfl, htrees, hblanks, hall⟩ :=
      hw.exists_arguments hspaces fun a ha t ht => ih a ha ht
    have hl : l ≠ [] := by
      rintro rfl
      exact hne (by simpa using htrees.symm)
    rw [← htrees]
    exact Renders.call (g := liberalWith known) hname (htp.allBlank hsp) hl hblanks hall
  | @negative sp cs e hsp _ ih =>
    obtain ⟨x, rfl, hx⟩ := hcs.exists_cons (by decide)
    obtain ⟨tp, y, rfl, htp, hy⟩ := hx.exists_append
    exact Renders.negative (g := liberalWith known) (htp.allBlank hsp) (ih hy)
  | @positive sp cs e hsp _ ih =>
    obtain ⟨x, rfl, hx⟩ := hcs.exists_cons (by decide)
    obtain ⟨tp, y, rfl, htp, hy⟩ := hx.exists_append
    exact Renders.positive (g := liberalWith known) (htp.allBlank hsp) (ih hy)
  | @binary op l r sp sp' a b hsp hsp' _ _ ihl ihr =>
    obtain ⟨front, back, rfl, hfront, hback⟩ := hcs.exists_append
    obtain ⟨x, symbol, rfl, hx, hsymbol⟩ := hfront.exists_append
    obtain ⟨l', tp, rfl, hl, htp⟩ := hx.exists_append
    obtain ⟨tp', r', rfl, htp', hr⟩ := hback.exists_append
    obtain rfl := hsymbol.eq (isBlank_symbol op)
    exact Renders.binary (g := liberalWith known) op (htp.allBlank hsp) (htp'.allBlank hsp')
      (ihl hl) (ihr hr)
  | loosen ht _ ih => exact .loosen ht (ih hcs)

/-- A text that hides no sign is read as the same text with other blanks. -/
theorem parse_of_sameButBlanks (h : SameButBlanks t s) (hs : Formed known (parse s))
    (ht : ¬ HidesSign t) : parse t = parse s := by
  have hrenders := ((parse_eq_iff s).mp ⟨rfl, hs⟩).1
  exact ((parse_eq_iff t).mpr ⟨hrenders.sameButBlanks h.trim, ht⟩).1

/-! ## Values -/

/-- An equals sign in front and blanks at the ends hide nothing. -/
theorem hidesSign_body (cs : List Char) : HidesSign (body cs) ↔ HidesSign cs := by
  rw [← hidesSign_trim cs]
  unfold body
  split
  · rename_i rest ht
    rw [ht, hidesSign_trim]
    constructor
    · exact fun h => h.mono ⟨['='], [], by simp⟩
    · intro h
      exact HidesSign.of_append_right (u := ['=']) h (by decide)
  · rfl

variable {c : Calculator}

theorem clear_of_evaluate {text : String} {v : Value} (h : c.evaluate text = .ok v) :
    ¬ HidesSign text.toList := by
  rw [← hidesSign_body]
  by_cases hbody : body text.toList = []
  · rw [hbody]
    exact not_hidesSign_nil
  · rw [evaluate_of_body hbody] at h
    have hformed : Formed (fun _ => True) (ofText text) := formed_of_eval (fun _ _ => trivial) _ h
    exact ((parse_eq_iff _).mp ⟨rfl, hformed⟩).2

/-- A value does not depend on the kind of the blanks, where no sign is hidden. -/
theorem evaluate_of_sameButBlanks {s t : String} {v : Value}
    (h : SameButBlanks t.toList s.toList) (hs : c.evaluate s = .ok v)
    (ht : ¬ HidesSign t.toList) : c.evaluate t = .ok v := by
  by_cases hbody : body s.toList = []
  · have hempty := h.body
    rw [hbody] at hempty
    rw [evaluate_of_blank hbody] at hs
    rw [evaluate_of_blank (List.forall₂_nil_right_iff.mp hempty), hs]
  · have hbody' : body t.toList ≠ [] := by
      intro hnil
      have hempty := h.body
      rw [hnil] at hempty
      exact hbody (List.forall₂_nil_left_iff.mp hempty)
    rw [evaluate_of_body hbody] at hs
    have hformed : Formed (fun _ => True) (ofText s) := formed_of_eval (fun _ _ => trivial) _ hs
    have hparse : ofText t = ofText s :=
      parse_of_sameButBlanks h.body hformed fun hhides => ht ((hidesSign_body _).mp hhides)
    rw [evaluate_of_body hbody', hparse, hs]

/-- What is hidden stays hidden when more blanks are replaced: the blank that
hides it is none of those. -/
theorem HidesSign.respaced (h : HidesSign s) (hst : Respaced s t) : HidesSign t := by
  obtain ⟨y, sp, x, hy, hsp, ⟨b, hb, hother⟩, hx, p, q, rfl⟩ := h
  have hback : List.Forall₂ (fun b a => b = a ∨ a = ' ' ∧ isBlank b = true) t
      (p ++ (y :: (sp ++ [x])) ++ q) := List.Forall₂.flip hst
  obtain ⟨w, q', rfl, hw, -⟩ := exists_append_of_forall₂ hback
  obtain ⟨p', m, rfl, -, hm⟩ := exists_append_of_forall₂ hw
  have hkept : ∀ {a b : Char}, a ≠ ' ' → (b = a ∨ a = ' ' ∧ isBlank b = true) → b = a :=
    fun ha hba => hba.resolve_right fun h => ha h.1
  have hne : ∀ z ∈ ['+', '-', '*', '/', '%', '^'], z ≠ ' ' := by decide
  cases hm with
  | cons hyy hm =>
    obtain rfl := hkept (hne y hy) hyy
    obtain ⟨sp', z, rfl, hspaces, hz⟩ := exists_append_of_forall₂ hm
    have hsame : SameButBlanks sp' sp := by
      refine List.Forall₂.imp (fun b a hba => ?_) hspaces
      rcases hba with rfl | ⟨rfl, hblank⟩
      · exact Or.inl rfl
      · exact Or.inr ⟨hblank, rfl⟩
    have hxsign : x ≠ ' ' := by
      rcases hx with rfl | rfl <;> decide
    have hb' : b ∈ sp' := by
      obtain ⟨front, back, rfl⟩ := List.append_of_mem hb
      obtain ⟨front', back', rfl, -, hb'⟩ := exists_append_of_forall₂ hspaces
      cases hb' with
      | cons hbb _ =>
        obtain rfl := hkept hother hbb
        simp
    cases hz with
    | cons hxx hnil =>
      cases hnil
      obtain rfl := hkept hxsign hxx
      exact ⟨_, sp', _, hy, hsame.allBlank hsp, ⟨b, hb', hother⟩, hx, p', q', rfl⟩

/-- Blanks in the place of ASCII spaces leave the value as it is, unless they
hide a sign: then there is none. -/
theorem evaluate_respaced (c : Calculator) (s t : String) (h : Respaced s.toList t.toList)
    (v : Value) : c.evaluate t = .ok v ↔ c.evaluate s = .ok v ∧ ¬ HidesSign t.toList := by
  constructor
  · intro ht
    have hclear := clear_of_evaluate ht
    exact ⟨evaluate_of_sameButBlanks h.sameButBlanks ht fun hs => hclear (hs.respaced h), hclear⟩
  · rintro ⟨hs, hclear⟩
    exact evaluate_of_sameButBlanks h.sameButBlanks.symm hs hclear

theorem evaluate_product_with_sign : Calculator.builtIn.evaluate "2 * -3" = .ok (.int (-6)) := by
  have hleaf : ∀ (d : Char) (h : Text.isDigitRun [d] = true),
      Renders plain .primary [d] (.number (Literal.mk [d] none none h (by simp)).number) := by
    intro d h
    exact Renders.leaf (g := plain) (.number (Literal.mk [d] none none h (by simp)))
  have hspace : plain.Spaces [' '] := by decide
  have hall : Renders plain .multiplicative ['2', ' ', '*', ' ', '-', '3'] _ :=
    Renders.binary (.arithmetic .times) hspace hspace ((hleaf '2' rfl).of_primary _)
      (Renders.negative spaces_nil ((hleaf '3' rfl).of_primary _))
  have htree := ofText_of_renders hall
  have hbody : body "2 * -3".toList ≠ [] := by decide
  rw [evaluate_of_body hbody]
  exact congrArg (eval Calculator.builtIn) htree

/-- A tab before the operator changes nothing. -/
theorem evaluate_respaced_product :
    Respaced "2 * -3".toList "2\t* -3".toList ∧
      (Calculator.builtIn.evaluate "2\t* -3" = .ok (.int (-6)) ↔
        Calculator.builtIn.evaluate "2 * -3" = .ok (.int (-6)) ∧ ¬ HidesSign "2\t* -3".toList) ∧
      Calculator.builtIn.evaluate "2\t* -3" = .ok (.int (-6)) := by
  have hrespaced : Respaced "2 * -3".toList "2\t* -3".toList := by
    unfold Respaced
    decide
  have hiff := evaluate_respaced Calculator.builtIn _ _ hrespaced (.int (-6))
  exact ⟨hrespaced, hiff, hiff.mpr ⟨evaluate_product_with_sign, by decide⟩⟩

/-- A tab between the operator and the sign takes the value away. -/
theorem no_value_behind_tab :
    Respaced "2 * -3".toList "2 *\t-3".toList ∧
      Calculator.builtIn.evaluate "2 * -3" = .ok (.int (-6)) ∧
      ∀ v, Calculator.builtIn.evaluate "2 *\t-3" ≠ .ok v := by
  refine ⟨?_, evaluate_product_with_sign, fun v hv => clear_of_evaluate hv (by decide)⟩
  unfold Respaced
  decide

end Worksheet.Expression
