import Mathlib.Algebra.BigOperators.Ring.Finset
import SchedulerComparison.Apache.Alignment
import SchedulerComparison.Lib.Sums

/-!
# The mass of the densities of `handle_ping.py`

`convolute` counts the HTTP times and the negated ping times over one grid. `complete_exactly` shows
when no time is lost: `int()` rounds the smallest negated ping time towards zero, so the grid starts
above it when its whole part is a multiple of `delta` and it has a fraction. The HTTP times are
never lost.
-/

namespace HandlePing

section
variable {httpTimes pingTimes arr : List ℚ} {delta : ℤ} {hdelta : 0 < delta} {a n : ℕ} {x : ℚ}

/-! ## The statement -/

/-- The number of buckets `[z, z + delta)` that the time is in. -/
def bucketsOf (zArr : List ℤ) (delta : ℤ) (x : ℚ) : ℕ :=
  zArr.countP fun z : ℤ => (z : ℚ) ≤ x ∧ x < (z : ℚ) + delta

/-- Every time is in exactly one bucket, and the density sums to one. -/
def MassComplete (arr : List ℚ) (zArr : List ℤ) (delta : ℤ) : Prop :=
  (∀ x ∈ arr, bucketsOf zArr delta x = 1) ∧ (estimateDensityFunc arr zArr delta).sum = 1

/-- The largest ping time is a whole number, or its whole part is not a multiple of `delta`. -/
def GridReaches (pingTimes : List ℚ) (delta : ℤ) : Prop :=
  ∀ p, pingTimes.max? = some p → delta ∣ ⌊p⌋ → (⌊p⌋ : ℚ) = p

/-! ## The buckets of a time -/

/-- On the grid no time is in two buckets. -/
theorem bucketsOf_grid_le_one (hdelta : 0 < delta) (a n : ℕ) (x : ℚ) :
    bucketsOf (grid a n delta) delta x ≤ 1 := by
  have huniq : ∀ i k, InBucket a delta i x → InBucket a delta k x → i ≤ k := by
    intro i k hi hk
    have := hk.lt (k := (i : ℤ) - a) hdelta (by simpa using hi.1)
    omega
  rw [bucketsOf, grid, List.countP_map]
  by_cases hex : ∃ k, InBucket a delta k x
  · obtain ⟨k, hk⟩ := hex
    refine le_trans (List.countP_mono_left (q := (· == k)) fun i _ hi => ?_)
      (List.nodup_iff_count_le_one.1 List.nodup_range k)
    have hi : InBucket a delta i x := of_decide_eq_true hi
    exact beq_iff_eq.2 (le_antisymm (huniq i k hi hk) (huniq k i hk hi))
  · refine le_of_eq_of_le (List.countP_eq_zero.2 fun i _ hi => hex ⟨i, of_decide_eq_true hi⟩) ?_
    exact Nat.zero_le 1

theorem bucketsOf_grid_pos_iff :
    0 < bucketsOf (grid a n delta) delta x ↔ ∃ i < n, InBucket a delta i x := by
  simp [bucketsOf, grid, List.countP_map, List.countP_pos_iff, InBucket]

/-- A time is in a bucket exactly when it is between the ends of the grid. -/
theorem bucketsOf_grid_eq_one_iff (hdelta : 0 < delta) :
    bucketsOf (grid a n delta) delta x = 1 ↔ ∃ i < n, InBucket a delta i x := by
  have := bucketsOf_grid_le_one hdelta a n x
  rw [← bucketsOf_grid_pos_iff]
  omega

/-- The density sums to one exactly when every time is in one bucket. -/
theorem sum_estimateDensityFunc_eq_one_iff {zArr : List ℤ}
    (hle : ∀ x, bucketsOf zArr delta x ≤ 1) (harr : arr ≠ []) :
    (estimateDensityFunc arr zArr delta).sum = 1 ↔ ∀ x ∈ arr, bucketsOf zArr delta x = 1 := by
  have hlen : (arr.length : ℚ) ≠ 0 := by simpa using harr
  have hsum : (estimateDensityFunc arr zArr delta).sum =
      ((arr.map (bucketsOf zArr delta)).sum : ℕ) / arr.length := by
    unfold bucketsOf estimateDensityFunc
    rw [Sums.sum_countP_comm, Nat.cast_list_sum, List.map_map]
    simp only [div_eq_mul_inv, List.sum_map_mul_right, Function.comp_def]
  rw [hsum, div_eq_one_iff_eq hlen, Nat.cast_inj]
  exact Sums.sum_eq_length_iff hle arr

/-! ## The times that the grid reaches -/

/-- A time that is not negative and at most the last grid point is in a bucket. -/
theorem bucketsOf_http (hdelta : 0 < delta) {b : ℕ} {t : ℚ} (h0 : 0 ≤ t) (hle : t ≤ b * delta) :
    bucketsOf (grid a (a + b + 1) delta) delta t = 1 := by
  have hd : (0 : ℚ) < delta := Int.cast_pos.2 hdelta
  have ha : (0 : ℚ) ≤ a * delta := by positivity
  refine (bucketsOf_grid_eq_one_iff hdelta).2 (exists_inBucket hdelta (by linarith) ?_)
  push_cast
  linarith

/-- A negated ping time is in a bucket exactly when it is not below the first grid point. -/
theorem bucketsOf_ping (hdelta : 0 < delta) {b : ℕ} {p : ℚ} (h0 : 0 ≤ p) :
    bucketsOf (grid a (a + b + 1) delta) delta (-p) = 1 ↔ p ≤ a * delta := by
  have hd : (0 : ℚ) < delta := Int.cast_pos.2 hdelta
  rw [bucketsOf_grid_eq_one_iff hdelta]
  constructor
  · rintro ⟨i, -, hin⟩
    have hi : (0 : ℚ) ≤ i * delta := by positivity
    have hlow := hin.1
    push_cast at hlow
    linarith
  · intro hle
    have hb : (0 : ℚ) ≤ b * delta := by positivity
    refine exists_inBucket hdelta (by linarith) ?_
    push_cast
    linarith

/-- The first grid point is at or below the smallest negated ping time exactly when the whole part
of the largest ping time is no multiple of `delta`, or all of it. -/
theorem le_ceil_mul_iff (hdelta : 0 < delta) (p : ℚ) :
    p ≤ (⌈(⌊p⌋ : ℚ) / delta⌉ * delta : ℚ) ↔ (delta ∣ ⌊p⌋ → (⌊p⌋ : ℚ) = p) := by
  have hd : (0 : ℚ) < delta := Int.cast_pos.2 hdelta
  have hceil : ⌊p⌋ ≤ ⌈(⌊p⌋ : ℚ) / delta⌉ * delta := by
    have := (div_le_iff₀ hd).1 (Int.le_ceil ((⌊p⌋ : ℚ) / delta))
    exact_mod_cast this
  constructor
  · rintro hle ⟨k, hk⟩
    refine le_antisymm (Int.floor_le p) ?_
    rw [hk, Int.cast_mul, mul_div_cancel_left₀ _ (ne_of_gt hd), Int.ceil_intCast, mul_comm,
      ← Int.cast_mul, ← hk] at hle
    exact hle
  · intro h
    by_cases hdvd : delta ∣ ⌊p⌋
    · rw [← h hdvd, Int.floor_intCast]
      exact_mod_cast hceil
    · -- the grid starts at the next multiple below `-⌊p⌋`
      have hlt : ⌊p⌋ + 1 ≤ ⌈(⌊p⌋ : ℚ) / delta⌉ * delta :=
        lt_of_le_of_ne hceil fun heq => hdvd ⟨_, heq.trans (mul_comm _ _)⟩
      have hcast : ((⌊p⌋ + 1 : ℤ) : ℚ) ≤ ((⌈(⌊p⌋ : ℚ) / delta⌉ * delta : ℤ) : ℚ) :=
        Int.cast_le.2 hlt
      push_cast at hcast
      exact le_trans (le_of_lt (Int.lt_floor_add_one p)) hcast

/-! ## The theorem -/

/-- Both densities over the grid of `convolute` are complete. -/
def MassesComplete (httpTimes pingTimes : List ℚ) (delta : ℤ) (r : List ℤ × List ℚ) : Prop :=
  MassComplete httpTimes r.1 delta ∧ MassComplete (negated pingTimes) r.1 delta

/-- On a grid that covers it, an array is complete. -/
theorem massComplete_grid_iff (hdelta : 0 < delta) (harr : arr ≠ []) :
    MassComplete arr (grid a n delta) delta ↔
      ∀ x ∈ arr, bucketsOf (grid a n delta) delta x = 1 := by
  unfold MassComplete
  rw [sum_estimateDensityFunc_eq_one_iff (bucketsOf_grid_le_one hdelta a n) harr, and_self_iff]

/-- `convolute` counts every time exactly when the grid reaches the largest ping time. -/
theorem complete_exactly (fftconvolve : List ℚ → List ℚ → List ℚ) (httpTimes pingTimes : List ℚ)
    (delta : ℤ) (hdelta : 0 < delta) (hhttp : httpTimes ≠ []) (hping : pingTimes ≠ [])
    (hhttp0 : ∀ t ∈ httpTimes, 0 ≤ t) (hping0 : ∀ p ∈ pingTimes, 0 ≤ p) :
    ∃ r, convolute fftconvolve httpTimes pingTimes delta hdelta = some r ∧
      (MassesComplete httpTimes pingTimes delta r ↔ GridReaches pingTimes delta) := by
  have hd : (0 : ℚ) < delta := Int.cast_pos.2 hdelta
  obtain ⟨a, ha⟩ := Int.eq_ofNat_of_zero_le (below_nonneg hdelta hping0)
  obtain ⟨t, ht, htop, htmax⟩ := exists_max? hhttp
  obtain ⟨p, hp, hptop, hpmax⟩ := exists_max? hping
  obtain ⟨b, hb⟩ := Int.eq_ofNat_of_zero_le
    (Int.ceil_nonneg (div_nonneg (hhttp0 t ht) (le_of_lt hd)))
  have habove : above httpTimes delta = b := by rw [above, htop, Option.getD_some, hb]
  have hbelow : ⌈(⌊p⌋ : ℚ) / delta⌉ = a := by rw [← ha, below, hptop, Option.getD_some]
  have hlen : (a + above httpTimes delta + 1).toNat = a + b + 1 := by omega
  refine ⟨_, convolute_eq fftconvolve hhttp hping hping0 ha, ?_⟩
  rw [MassesComplete, hlen, massComplete_grid_iff hdelta hhttp,
    massComplete_grid_iff hdelta (by simpa [negated] using hping)]
  have hall : ∀ s ∈ httpTimes, bucketsOf (grid a (a + b + 1) delta) delta s = 1 := by
    intro s hs
    refine bucketsOf_http hdelta (hhttp0 s hs) (le_trans (htmax s hs) ?_)
    have := (div_le_iff₀ hd).1 (Int.le_ceil (t / delta))
    rwa [hb, Int.cast_natCast] at this
  rw [and_iff_right hall]
  have hreach : GridReaches pingTimes delta ↔ p ≤ (a * delta : ℚ) := by
    rw [GridReaches, hptop, ← Int.cast_natCast, ← hbelow, le_ceil_mul_iff hdelta]
    simp
  rw [hreach]
  constructor
  · intro h
    exact (bucketsOf_ping hdelta (hping0 p hp)).1 (h (-p) (List.mem_map_of_mem hp))
  · intro h x hx
    obtain ⟨q, hq, rfl⟩ := List.mem_map.1 hx
    exact (bucketsOf_ping hdelta (hping0 q hq)).2 (le_trans (hpmax q hq) h)

end

/-- Two HTTP times and three ping times, of which the largest has a fraction and a whole part inside
a bucket. -/
theorem complete_threePings :
    ∃ r, convolute same [100000, 40000] [3 / 2, 500001 / 2, 100000] 100000 (by decide) = some r ∧
      MassesComplete [100000, 40000] [3 / 2, 500001 / 2, 100000] 100000 r := by
  obtain ⟨r, hr, hiff⟩ := complete_exactly same [100000, 40000] [3 / 2, 500001 / 2, 100000] 100000
    (by decide) (List.cons_ne_nil _ _) (List.cons_ne_nil _ _) (by decide +kernel)
    (by decide +kernel)
  have hmax : [3 / 2, 500001 / 2, 100000].max? = some (500001 / 2 : ℚ) := by decide +kernel
  refine ⟨r, hr, hiff.2 fun p hp hdvd => ?_⟩
  obtain rfl := Option.some.inj (hmax.symm.trans hp)
  exact absurd hdvd (by decide +kernel)

/-- A ping time of a bucket and half a nanosecond lies below the grid: it is counted nowhere, and
the density of the ping times sums to zero. -/
theorem ping_lost :
    convolute same [100000] [200001 / 2] 100000 (by decide) =
        some ([-100000, 0, 100000], [0, 0, 0]) ∧
      bucketsOf [-100000, 0, 100000] 100000 (-(200001 / 2)) = 0 ∧
      (estimateDensityFunc (negated [200001 / 2]) [-100000, 0, 100000] 100000).sum = 0 ∧
      ¬ MassesComplete [100000] [200001 / 2] 100000 ([-100000, 0, 100000], [0, 0, 0]) := by
  refine ⟨?_, by decide +kernel, by decide +kernel, fun h => ?_⟩
  · have hmin : (negated [200001 / 2]).min? = some (-(200001 / 2)) := by decide +kernel
    have hmax : ([100000] : List ℚ).max? = some 100000 := rfl
    have hlo : (truncate (-(200001 / 2))).fdiv 100000 * 100000 = -100000 := by decide +kernel
    have hhi : ⌈(100000 : ℚ) / (100000 : ℤ)⌉ * 100000 = 100000 := by decide +kernel
    have hz : zVals 100000 (by decide) (-100000) 100000 = [-100000, 0, 100000] := by simp [zVals]
    rw [convolute, hmin, hmax]
    simp only [Option.bind_eq_bind, Option.bind_some, Option.pure_def, hlo, hhi, hz]
    decide +kernel
  · have hone := h.2.1 (-(200001 / 2)) (by simp [negated])
    revert hone
    decide +kernel

end HandlePing
