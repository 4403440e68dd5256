import Mathlib.Algebra.BigOperators.Field
import Mathlib.Algebra.BigOperators.NatAntidiagonal
import Mathlib.Algebra.Order.BigOperators.Group.Finset
import Mathlib.Algebra.Order.Ring.Defs
import Mathlib.Algebra.Ring.Nat
import Mathlib.Data.List.ProdSigma

/-!
# Linear convolution of finite sequences

A finite sequence is a function on `Nat` that vanishes from some index on. `conv f g` is the linear
convolution of two of them. The lemmas say where it can differ from zero
(`exists_of_conv_ne_zero`), where it does (`conv_pos`), and that it is a sum over index pairs
(`conv_eq_sum`). `eq_zero_of_shift_eq` is the rule for a window that was read at the wrong
place: a sequence that vanishes outside of a window and agrees on it with a shift of itself
is zero. Convolving two counts counts the pairs (`conv_counts`).
-/

namespace Convolution

section
variable {R : Type _}

/-- The linear convolution: the sum of `f i * g j` over the indices with `i + j = k`. -/
def conv [Semiring R] (f g : Nat → R) (k : Nat) : R :=
  ∑ p ∈ Finset.HasAntidiagonal.antidiagonal k, f p.1 * g p.2

/-- Of two sequences that vanish from `n` on, it is a sum over the index pairs below `n`. -/
theorem conv_eq_sum [Semiring R] {f g : Nat → R} {n : Nat} (hf : ∀ i, n ≤ i → f i = 0)
    (hg : ∀ j, n ≤ j → g j = 0) (k : Nat) :
    conv f g k =
      ∑ i ∈ Finset.range n, ∑ j ∈ Finset.range n, if i + j = k then f i * g j else 0 := by
  rw [← Finset.sum_product', ← Finset.sum_filter]
  -- the pairs of the antidiagonal that are left out contribute nothing
  refine (Finset.sum_subset (fun p hp => ?_) fun p hp hnot => ?_).symm
  · exact Finset.HasAntidiagonal.mem_antidiagonal.2 (Finset.mem_filter.1 hp).2
  · have hk : p.1 + p.2 = k := Finset.HasAntidiagonal.mem_antidiagonal.1 hp
    rcases Nat.lt_or_ge p.1 n with h1 | h1
    · rcases Nat.lt_or_ge p.2 n with h2 | h2
      · have hmem := Finset.mem_product.2 ⟨Finset.mem_range.2 h1, Finset.mem_range.2 h2⟩
        exact absurd (Finset.mem_filter.2 ⟨hmem, hk⟩) hnot
      · rw [hg _ h2, mul_zero]
    · rw [hf _ h1, zero_mul]

/-- A nonzero value comes from a nonzero value of each sequence. -/
theorem exists_of_conv_ne_zero [Semiring R] {f g : Nat → R} {k : Nat} (h : conv f g k ≠ 0) :
    ∃ i j, i + j = k ∧ f i ≠ 0 ∧ g j ≠ 0 := by
  obtain ⟨p, hp, hne⟩ := Finset.exists_ne_zero_of_sum_ne_zero h
  refine ⟨p.1, p.2, Finset.HasAntidiagonal.mem_antidiagonal.1 hp, fun h0 => hne ?_,
    fun h0 => hne ?_⟩
  · rw [h0, zero_mul]
  · rw [h0, mul_zero]

/-- Convolving with zero. -/
theorem conv_eq_zero [Semiring R] {f g : Nat → R} (hg : ∀ j, g j = 0) (k : Nat) :
    conv f g k = 0 :=
  Finset.sum_eq_zero fun p _ => by rw [hg, mul_zero]

/-- The convolution of sequences that are nowhere negative is positive where two positive values
meet. -/
theorem conv_pos [Semiring R] [PartialOrder R] [IsStrictOrderedRing R] {f g : Nat → R} {i j : Nat}
    (hf : ∀ i, 0 ≤ f i) (hg : ∀ j, 0 ≤ g j) (hi : 0 < f i) (hj : 0 < g j) :
    0 < conv f g (i + j) := by
  refine Finset.sum_pos' (fun p _ => mul_nonneg (hf _) (hg _)) ⟨(i, j), ?_, mul_pos hi hj⟩
  exact Finset.HasAntidiagonal.mem_antidiagonal.2 rfl

/-- A sequence that vanishes outside of the window `[a, a + n)`, and whose window at `c ≠ a` reads
the same, vanishes. -/
theorem eq_zero_of_shift_eq [Zero R] {f : Nat → R} {a c n : Nat}
    (hout : ∀ x, x < a ∨ a + n ≤ x → f x = 0) (hc : c ≠ a)
    (hshift : ∀ m < n, f (m + c) = f (m + a)) (x : Nat) : f x = 0 := by
  rcases Nat.lt_or_gt_of_ne hc with hlt | hgt
  · -- step down by `a - c` until the window is left
    induction x using Nat.strongRecOn with
    | ind x ih =>
      by_cases hx : x < a ∨ a + n ≤ x
      · exact hout x hx
      · have heq := hshift (x - a) (by omega)
        rw [show x - a + a = x by omega] at heq
        rw [← heq]
        exact ih _ (by omega)
  · -- step up by `c - a` until the window is left
    induction hd : a + n - x using Nat.strongRecOn generalizing x with
    | ind d ih =>
      by_cases hx : x < a ∨ a + n ≤ x
      · exact hout x hx
      · have heq := hshift (x - a) (by omega)
        rw [show x - a + a = x by omega] at heq
        rw [← heq]
        exact ih _ (by omega) _ rfl

end

/-! ## Counts -/

section
variable {α β R : Type _}

/-- The number of elements of each index. -/
def counts (u : α → Int) (xs : List α) (i : Nat) : Nat := xs.countP fun x => u x = i

theorem counts_cons (u : α → Int) (x : α) (xs : List α) (i : Nat) :
    counts u (x :: xs) i = counts u xs i + if u x = i then 1 else 0 := by
  simp [counts, List.countP_cons]

/-- Convolving with the count of a single element shifts. -/
theorem conv_single [Semiring R] (m : Int) (g : Nat → R) (k : Nat) :
    conv (fun i => if m = i then 1 else 0) g k =
      if 0 ≤ m ∧ m ≤ k then g (k - m).toNat else 0 := by
  unfold conv
  simp only [ite_mul, one_mul, zero_mul, ← Finset.sum_filter]
  split
  · next h =>
    have hpair : (Finset.HasAntidiagonal.antidiagonal k).filter (fun p => m = (p.1 : Int)) =
        {(m.toNat, (k - m).toNat)} := by
      ext ⟨i, j⟩
      simp only [Finset.mem_filter, Finset.HasAntidiagonal.mem_antidiagonal, Finset.mem_singleton,
        Prod.mk.injEq]
      omega
    rw [hpair, Finset.sum_singleton]
  · next h =>
    refine Finset.sum_eq_zero fun p hp => ?_
    obtain ⟨hk, hm⟩ := Finset.mem_filter.1 hp
    have := Finset.HasAntidiagonal.mem_antidiagonal.1 hk
    omega

/-- The convolution of two counts is the number of pairs whose indices add up. -/
theorem conv_counts (u : α → Int) (v : β → Int) (xs : List α) (ys : List β) (k : Nat) :
    conv (counts u xs) (counts v ys) k =
      (xs ×ˢ ys).countP fun p => 0 ≤ u p.1 ∧ 0 ≤ v p.2 ∧ u p.1 + v p.2 = k := by
  induction xs with
  | nil => simp [conv, counts]
  | cons x xs ih =>
    have hrow : (ys.map (Prod.mk x)).countP
        (fun p => decide (0 ≤ u p.1 ∧ 0 ≤ v p.2 ∧ u p.1 + v p.2 = k)) =
          if 0 ≤ u x ∧ u x ≤ k then counts v ys (k - u x).toNat else 0 := by
      rw [List.countP_map]
      split
      · next h =>
        refine List.countP_congr fun y _ => ?_
        simp only [Function.comp_apply, decide_eq_true_eq]
        omega
      · next h =>
        refine List.countP_eq_zero.2 fun y _ hy => h ?_
        have hy : 0 ≤ u x ∧ 0 ≤ v y ∧ u x + v y = k := of_decide_eq_true hy
        omega
    have hsum : conv (counts u (x :: xs)) (counts v ys) k =
        conv (counts u xs) (counts v ys) k +
          conv (fun i => if u x = i then 1 else 0) (counts v ys) k := by
      simp only [conv, counts_cons, add_mul, Finset.sum_add_distrib]
    rw [hsum, ih, conv_single, List.product_cons, List.countP_append, hrow, Nat.add_comm]

/-- Convolving shares is convolving counts. -/
theorem conv_div [Semifield R] (f g : Nat → Nat) (c d : R) (k : Nat) :
    conv (fun i => (f i : R) / c) (fun j => (g j : R) / d) k = (conv f g k : Nat) / (c * d) := by
  simp only [conv, div_mul_div_comm, ← Finset.sum_div]
  push_cast
  rfl

end

end Convolution
