import Mathlib.Data.Rat.Floor
import SchedulerComparison.Lib.Convolution

/-!
# The latency distribution of `handle_ping.py`

`convolute` of `apache/handle_ping.py` puts the HTTP times and the negated ping times into buckets
of width `delta`, over one grid for both, and convolves the two densities. Floats are rationals
here. `scipy.signal.fftconvolve` is a parameter (`IsSame` is its documented meaning), and the
`ValueError` of `np.min` and `np.max` on an empty array is `none`.
-/

open Convolution

namespace HandlePing

/-- `int(x)` of a float. -/
def truncate (x : ℚ) : ℤ := if x < 0 then ⌈x⌉ else ⌊x⌋

/-- The grid: `while z <= max_dist_sum` (`handle_ping.py:45-49`). -/
def zVals (delta : ℤ) (hdelta : 0 < delta) (z maxDistSum : ℤ) : List ℤ :=
  if z ≤ maxDistSum then z :: zVals delta hdelta (z + delta) maxDistSum else []
termination_by (maxDistSum + 1 - z).toNat
decreasing_by omega

/-- The share of the elements that are in the bucket of each grid point (`handle_ping.py:28`). -/
def estimateDensityFunc (arr : List ℚ) (zArr : List ℤ) (delta : ℤ) : List ℚ :=
  zArr.map fun z : ℤ =>
    (arr.countP fun item : ℚ => (z : ℚ) ≤ item ∧ item < (z : ℚ) + delta : ℚ) / arr.length

/-- `-ping_times`. -/
def negated (pingTimes : List ℚ) : List ℚ := pingTimes.map (- ·)

/-- `convolute(http_times, ping_times, delta)` (`handle_ping.py:40`). -/
def convolute (fftconvolve : List ℚ → List ℚ → List ℚ) (httpTimes pingTimes : List ℚ) (delta : ℤ)
    (hdelta : 0 < delta) : Option (List ℤ × List ℚ) := do
  let minDistSum := (truncate (← (negated pingTimes).min?)).fdiv delta * delta
  let maxDistSum := ⌈(← httpTimes.max?) / delta⌉ * delta
  let z := zVals delta hdelta minDistSum maxDistSum
  let httpPdf := estimateDensityFunc httpTimes z delta
  let negPingPdf := estimateDensityFunc (negated pingTimes) z delta
  return (z, fftconvolve httpPdf negPingPdf)

/-- An array as a sequence that is zero behind its end. -/
def seq (a : List ℚ) (i : ℕ) : ℚ := a.getD i 0

/-- The linear convolution of two arrays, cut to `len(a)` entries from `(len(b) - 1) // 2` on. -/
def same (a b : List ℚ) : List ℚ :=
  (List.range a.length).map fun m => conv (seq a) (seq b) (m + (b.length - 1) / 2)

/-- What `fftconvolve(a, b, 'same')` computes, in exact arithmetic. -/
def IsSame (fftconvolve : List ℚ → List ℚ → List ℚ) : Prop :=
  ∀ a b, a ≠ [] → b ≠ [] → fftconvolve a b = same a b

/-- The probability that the difference of the two bucketed times is `z[m]`. -/
def differencePmf (z : List ℤ) (httpPdf negPingPdf : List ℚ) (m : ℕ) : ℚ :=
  ∑ i ∈ Finset.range z.length, ∑ j ∈ Finset.range z.length,
    if z.getD i 0 + z.getD j 0 = z.getD m 0 then seq httpPdf i * seq negPingPdf j else 0

/-- The distribution that is plotted is the one of the difference. -/
def PlotsDifference (httpTimes pingTimes : List ℚ) (delta : ℤ) (r : List ℤ × List ℚ) : Prop :=
  ∀ m < r.1.length, r.2[m]? = some (differencePmf r.1 (estimateDensityFunc httpTimes r.1 delta)
    (estimateDensityFunc (negated pingTimes) r.1 delta) m)

/-! ## The grid -/

section
variable {delta : ℤ} {hdelta : 0 < delta}

/-- The grid is empty when it would start behind its end. -/
theorem zVals_eq_nil {z hi : ℤ} (h : hi < z) : zVals delta hdelta z hi = [] := by
  rw [zVals, if_neg (Int.not_le.2 h)]

/-- The grid from `z` to `z + (n - 1) * delta`. -/
theorem zVals_eq_map (n : ℕ) {z hi : ℤ} (h : hi + delta = z + n * delta) :
    zVals delta hdelta z hi = (List.range n).map fun i : ℕ => z + i * delta := by
  induction n generalizing z with
  | zero =>
    rw [zVals_eq_nil (by omega)]
    rfl
  | succ n ih =>
    have hn : 0 ≤ (n : ℤ) * delta := Int.mul_nonneg (Int.natCast_nonneg n) (Int.le_of_lt hdelta)
    rw [Nat.cast_succ, add_mul, one_mul] at h
    rw [zVals, if_pos (by omega), ih (by omega), List.range_succ_eq_map, List.map_cons,
      List.map_map]
    refine congrArg₂ _ (by simp) (List.map_congr_left fun i _ => ?_)
    show z + delta + i * delta = z + ((i + 1 : ℕ) : ℤ) * delta
    rw [Nat.cast_succ, add_mul, one_mul, add_assoc, add_comm delta]

end

end HandlePing
