-- Values. What a cell holds and what an expression gives: nothing, a
-- truth value, an integer of any size, a double, a text, or a list. Truth
-- values count as numbers wherever a number is asked for.
import Worksheet.Number

namespace Worksheet

/-! ## The types -/

inductive Value where
  | empty
  | bool (b : Bool)
  | int (n : Int)
  | double (x : Double)
  | text (s : String)
  | list (items : List Value)

namespace Value

/-! ## Equality -/

mutual

/-- Two values are the same when they are of one kind and hold the same. -/
def same : Value → Value → Bool
  | .empty, .empty => true
  | .bool a, .bool b => a == b
  | .int a, .int b => a == b
  | .double a, .double b => decide (a = b)
  | .text a, .text b => a == b
  | .list as, .list bs => sameAll as bs
  | _, _ => false

def sameAll : List Value → List Value → Bool
  | [], [] => true
  | a :: as, b :: bs => same a b && sameAll as bs
  | _, _ => false

end

mutual

theorem eq_of_same : (a b : Value) → same a b = true → a = b
  | .empty, b, h => by cases b <;> simp_all [same]
  | .bool _, b, h => by cases b <;> simp_all [same]
  | .int _, b, h => by cases b <;> simp_all [same]
  | .double _, b, h => by cases b <;> simp_all [same]
  | .text _, b, h => by cases b <;> simp_all [same]
  | .list as, b, h => by
    cases b with
    | list bs => rw [same] at h; rw [eq_of_sameAll as bs h]
    | _ => simp [same] at h

theorem eq_of_sameAll : (as bs : List Value) → sameAll as bs = true → as = bs
  | [], [], _ => rfl
  | [], _ :: _, h => by simp [sameAll] at h
  | _ :: _, [], h => by simp [sameAll] at h
  | a :: as, b :: bs, h => by
    rw [sameAll, Bool.and_eq_true] at h
    rw [eq_of_same a b h.1, eq_of_sameAll as bs h.2]

end

mutual

theorem same_self : (a : Value) → same a a = true
  | .empty => by simp [same]
  | .bool _ => by simp [same]
  | .int _ => by simp [same]
  | .double _ => by simp [same]
  | .text _ => by simp [same]
  | .list as => by rw [same]; exact sameAll_self as

theorem sameAll_self : (as : List Value) → sameAll as as = true
  | [] => by simp [sameAll]
  | a :: as => by rw [sameAll, same_self a, sameAll_self as]; rfl

end

theorem same_iff (a b : Value) : same a b = true ↔ a = b :=
  ⟨eq_of_same a b, fun h => h ▸ same_self a⟩

instance : DecidableEq Value := fun a b => decidable_of_iff _ (same_iff a b)

instance : Inhabited Value := ⟨.empty⟩

/-! ## Numbers -/

/-- The value as a number, if it is one. -/
def number? : Value → Option Number
  | .bool b => some (.int (if b then 1 else 0))
  | .int n => some (.int n)
  | .double x => some (.double x)
  | _ => none

def ofNumber : Number → Value
  | .int n => .int n
  | .double x => .double x

end Value

end Worksheet
