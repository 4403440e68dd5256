import Mathlib.Algebra.Order.Group.Int
import Mathlib.Data.Int.Order.Basic
import Mathlib.Tactic.Ring

/-!
# Counted loops over an `int`

`values lo hi step` are the values of `v` in `for (int v = lo; v <= hi; v += step)`. `Fits` says
that the loop ends without an overflow: its step is positive, and the first value behind the end is
an `int` as well.
-/

namespace CountedLoop

/-- `lo`, `lo + step`, and so on, as far as they do not exceed `hi`. -/
def values (lo hi step : Int) : List Int :=
  if lo ≤ hi then (List.range (((hi - lo) / step).toNat + 1)).map fun i : Nat => lo + i * step
  else []

/-- The loop is not entered, or its step is positive and the first value behind `hi` is an `int`. -/
def Fits (lo hi step : Int) : Prop :=
  lo ≤ hi → 1 ≤ step ∧ lo + ((hi - lo) / step + 1) * step < 2 ^ 31

instance (lo hi step : Int) : Decidable (Fits lo hi step) := inferInstanceAs (Decidable (_ → _))

section
variable {lo hi step : Int}

theorem values_of_lt (h : hi < lo) : values lo hi step = [] := if_neg (Int.not_le.2 h)

/-- One step takes one from the count. -/
theorem div_next (hs : 1 ≤ step) : (hi - (lo + step)) / step = (hi - lo) / step - 1 := by
  rw [← sub_sub, Int.sub_ediv_of_dvd _ (Int.dvd_refl step), Int.ediv_self (by omega)]

/-- The first value, and those of the rest of the loop. -/
theorem values_of_le (h : lo ≤ hi) (hs : 1 ≤ step) :
    values lo hi step = lo :: values (lo + step) hi step := by
  have hdiv : (hi - (lo + step)) / step = (hi - lo) / step - 1 := div_next hs
  rw [values, if_pos h, List.range_succ_eq_map, List.map_cons, List.map_map]
  refine congrArg₂ _ (by simp) ?_
  rcases lt_or_ge hi (lo + step) with hlt | hle
  · have hzero : (hi - lo) / step = 0 := Int.ediv_eq_zero_of_lt (by omega) (by omega)
    rw [values_of_lt hlt, hzero]
    rfl
  · have hpos : 0 ≤ (hi - (lo + step)) / step := Int.ediv_nonneg (by omega) (by omega)
    have hcount : ((hi - lo) / step).toNat = ((hi - (lo + step)) / step).toNat + 1 := by omega
    rw [values, if_pos hle, hcount]
    refine List.map_congr_left fun i _ => ?_
    simp only [Function.comp_apply, Nat.succ_eq_add_one, Nat.cast_add, Nat.cast_one]
    ring

/-- The rest of the loop fits as well. -/
theorem Fits.next (hf : Fits lo hi step) (h : lo ≤ hi) : Fits (lo + step) hi step := by
  obtain ⟨hs, hlt⟩ := hf h
  intro _
  refine ⟨hs, ?_⟩
  rw [div_next hs]
  have heq :
      lo + step + ((hi - lo) / step - 1 + 1) * step = lo + ((hi - lo) / step + 1) * step := by
    ring
  rwa [heq]

/-- A value of a loop that fits: an `int` for which the body is run. -/
structure InLoop (v hi step : Int) : Prop where
  isInt : -2 ^ 31 ≤ v ∧ v < 2 ^ 31
  fits : Fits v hi step
  le : v ≤ hi

theorem InLoop.one_le (h : InLoop lo hi step) : 1 ≤ step := (h.fits h.le).1

/-- The next value is an `int`. -/
theorem InLoop.isInt_next (h : InLoop lo hi step) : -2 ^ 31 ≤ lo + step ∧ lo + step < 2 ^ 31 := by
  obtain ⟨⟨hlow, -⟩, hf, hle⟩ := h
  obtain ⟨hs, hlt⟩ := hf hle
  have hpos : 0 ≤ (hi - lo) / step := Int.ediv_nonneg (by omega) (by omega)
  have hmul : 1 * step ≤ ((hi - lo) / step + 1) * step :=
    Int.mul_le_mul_of_nonneg_right (by omega) (by omega)
  omega

/-- The first value, and those of the rest of the loop. -/
theorem InLoop.values (h : InLoop lo hi step) :
    CountedLoop.values lo hi step = lo :: CountedLoop.values (lo + step) hi step :=
  values_of_le h.le h.one_le

end

end CountedLoop
