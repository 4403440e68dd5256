import Mathlib.Algebra.GroupWithZero.Nat
import Mathlib.Algebra.Order.BigOperators.Group.List
import Mathlib.Algebra.Order.Group.Nat

/-!
# Sums of counts

Two facts about counts that are added up over a list: elements can be counted by the buckets or the
buckets by the elements (`sum_countP_comm`), and a sum that has the value of a bound has it term by
term (`sum_map_eq_iff_of_le`).
-/

namespace Sums

variable {α β : Type}

theorem countP_eq_sum (p : β → Bool) (m : List β) :
    m.countP p = (m.map fun b => if p b then 1 else 0).sum := by
  induction m with
  | nil => rfl
  | cons b m ih => rw [List.countP_cons, List.map_cons, List.sum_cons, ih, add_comm]

/-- Where two tests exclude each other, the elements that pass one of them are counted. -/
theorem countP_add_countP {p q r : α → Bool} (hor : ∀ a, r a = true ↔ p a = true ∨ q a = true)
    (hnot : ∀ a, p a = true → q a = false) (l : List α) : l.countP p + l.countP q = l.countP r := by
  induction l with
  | nil => rfl
  | cons a l ih =>
    have hr := hor a
    have hn := hnot a
    rw [List.countP_cons, List.countP_cons, List.countP_cons, ← ih]
    cases hp : p a <;> cases hq : q a <;> simp_all <;> omega

/-- Counting the elements of each bucket is counting the buckets of each element. -/
theorem sum_countP_comm (p : α → β → Bool) (l : List α) (m : List β) :
    (l.map fun a => m.countP (p a)).sum = (m.map fun b => l.countP (p · b)).sum := by
  induction l with
  | nil => simp
  | cons a l ih =>
    rw [List.map_cons, List.sum_cons, ih, countP_eq_sum, ← List.sum_map_add]
    refine congrArg List.sum (List.map_congr_left fun b _ => ?_)
    rw [List.countP_cons, add_comm]

/-- A sum of larger terms is the same sum only if the terms are. -/
theorem sum_map_eq_iff_of_le {f g : α → Nat} (hle : ∀ a, f a ≤ g a) (l : List α) :
    (l.map f).sum = (l.map g).sum ↔ ∀ a ∈ l, f a = g a := by
  induction l with
  | nil => simp
  | cons a l ih =>
    have ha := hle a
    have hl : (l.map f).sum ≤ (l.map g).sum := List.sum_le_sum fun b _ => hle b
    rw [List.map_cons, List.sum_cons, List.map_cons, List.sum_cons, List.forall_mem_cons]
    refine Iff.trans ?_ (and_congr_right' ih)
    omega

/-- A sum of zeros and ones is the number of its terms exactly when they are all one. -/
theorem sum_eq_length_iff {f : α → Nat} (hf : ∀ a, f a ≤ 1) (l : List α) :
    (l.map f).sum = l.length ↔ ∀ a ∈ l, f a = 1 := by
  rw [← sum_map_eq_iff_of_le hf, List.map_const', List.sum_replicate, Nat.nsmul_eq_mul,
    mul_one]

end Sums
