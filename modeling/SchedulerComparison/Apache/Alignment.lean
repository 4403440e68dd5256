import Mathlib.Algebra.Order.Field.Rat
import Mathlib.Data.List.GetD
import Mathlib.Tactic.Linarith
import Mathlib.Tactic.Positivity
import SchedulerComparison.Apache.HandlePing

/-!
# Where the latency distribution is plotted

The grid of `convolute` has `a` buckets below zero and `b` from zero on. The entry of the full
convolution for the grid point `z[m]` is the one at `m + a`, since the grid starts at `-a * delta`;
`fftconvolve` with mode `'same'` gives the one at `m + (n - 1) / 2` instead, where `n = a + b + 1`
is the length of the grid. `plotted_exactly` shows when this is the distribution of the difference:
when `b` is `a` or `a + 1`, or when no ping time is on the grid, so that all entries are zero.
-/

open Convolution

namespace HandlePing

section
variable {httpTimes pingTimes : List ℚ} {delta : ℤ} {hdelta : 0 < delta} {a n : ℕ}

/-! ## The condition -/

/-- The number of grid points below zero: the whole part of the largest ping time in buckets. -/
def below (pingTimes : List ℚ) (delta : ℤ) : ℤ := ⌈(⌊pingTimes.max?.getD 0⌋ : ℚ) / delta⌉

/-- The number of grid points above zero: the largest HTTP time in buckets. -/
def above (httpTimes : List ℚ) (delta : ℤ) : ℤ := ⌈httpTimes.max?.getD 0 / delta⌉

/-- The grid is symmetric, or has one more point above zero than below, or every ping time is off
the grid. -/
def Aligned (httpTimes pingTimes : List ℚ) (delta : ℤ) : Prop :=
  above httpTimes delta = below pingTimes delta ∨
    above httpTimes delta = below pingTimes delta + 1 ∨
      ∀ p ∈ pingTimes, (below pingTimes delta * delta : ℚ) < p

/-! ## The grid that `convolute` builds -/

/-- `n` grid points, `a` of them below zero. -/
def grid (a n : ℕ) (delta : ℤ) : List ℤ := (List.range n).map fun i : ℕ => ((i : ℤ) - a) * delta

@[simp] theorem length_grid : (grid a n delta).length = n := by simp [grid]

theorem grid_getD {i : ℕ} (hi : i < n) : (grid a n delta).getD i 0 = ((i : ℤ) - a) * delta := by
  have hlen : i < (grid a n delta).length := by rwa [length_grid]
  rw [List.getD_eq_getElem _ _ hlen]
  simp [grid]

/-- The loop builds the grid. -/
theorem zVals_eq_grid (b : ℤ) :
    zVals delta hdelta (-(a : ℤ) * delta) (b * delta) = grid a (a + b + 1).toNat delta := by
  rcases lt_or_ge (a + b + 1) 0 with hneg | hpos
  · rw [show (a + b + 1).toNat = 0 by omega]
    exact zVals_eq_nil (Int.mul_lt_mul_of_pos_right (by omega) hdelta)
  · rw [zVals_eq_map (a + b + 1).toNat]
    · refine List.map_congr_left fun i _ => ?_
      ring
    · rw [Int.toNat_of_nonneg hpos]
      ring

/-- `min_dist_sum` (`handle_ping.py:42`): truncating a negated time rounds it up. -/
theorem minDistSum_eq {x : ℚ} (hx : 0 ≤ x) (hdelta : 0 < delta) :
    (truncate (-x)).fdiv delta = -⌈(⌊x⌋ : ℚ) / delta⌉ := by
  have htrunc : truncate (-x) = -⌊x⌋ := by
    unfold truncate
    split
    · exact Int.ceil_neg
    · next h =>
      have hzero : x = 0 := by linarith
      rw [hzero, neg_zero, Int.floor_zero, neg_zero]
  rw [htrunc, Int.fdiv_eq_ediv_of_nonneg _ (Int.le_of_lt hdelta), ← Int.floor_neg, ← neg_div,
    ← Int.cast_neg]
  lift delta to ℕ using Int.le_of_lt hdelta
  exact (Rat.floor_intCast_div_natCast _ _).symm

/-- The smallest negated time is that of the largest time. -/
theorem min?_negated {x : ℚ} (h : pingTimes.max? = some x) :
    (negated pingTimes).min? = some (-x) := by
  obtain ⟨hmem, hle⟩ := List.max?_eq_some_iff.1 h
  refine List.min?_eq_some_iff.2 ⟨List.mem_map_of_mem hmem, fun y hy => ?_⟩
  obtain ⟨p, hp, rfl⟩ := List.mem_map.1 hy
  exact neg_le_neg (hle p hp)

/-- The largest element of a nonempty array. -/
theorem exists_max? {l : List ℚ} (h : l ≠ []) : ∃ x ∈ l, l.max? = some x ∧ ∀ y ∈ l, y ≤ x := by
  obtain ⟨x, hx⟩ := Option.isSome_iff_exists.1 (List.isSome_max?_of_ne_nil h)
  obtain ⟨hmem, hle⟩ := List.max?_eq_some_iff.1 hx
  exact ⟨x, hmem, hx, hle⟩

/-- What `convolute` returns. -/
theorem convolute_eq (fftconvolve : List ℚ → List ℚ → List ℚ) (hhttp : httpTimes ≠ [])
    (hping : pingTimes ≠ []) (hpos : ∀ p ∈ pingTimes, 0 ≤ p) (ha : below pingTimes delta = a) :
    convolute fftconvolve httpTimes pingTimes delta hdelta =
      some (grid a (a + above httpTimes delta + 1).toNat delta,
        fftconvolve
          (estimateDensityFunc httpTimes (grid a (a + above httpTimes delta + 1).toNat delta) delta)
          (estimateDensityFunc (negated pingTimes)
            (grid a (a + above httpTimes delta + 1).toNat delta) delta)) := by
  obtain ⟨x, hx, hmax, -⟩ := exists_max? hping
  obtain ⟨y, -, hmax', -⟩ := exists_max? hhttp
  have hbelow : (truncate (-x)).fdiv delta = -(a : ℤ) := by
    rw [minDistSum_eq (hpos x hx) hdelta, ← ha, below, hmax, Option.getD_some]
  have habove : above httpTimes delta = ⌈y / delta⌉ := by rw [above, hmax', Option.getD_some]
  rw [convolute, min?_negated hmax, hmax', habove, ← zVals_eq_grid, ← hbelow]
  rfl

/-! ## The densities on the grid -/

variable {arr : List ℚ} {i : ℕ} {x : ℚ}

/-- The time is in bucket `i` of the grid. -/
def InBucket (a : ℕ) (delta : ℤ) (i : ℕ) (x : ℚ) : Prop :=
  ((((i : ℤ) - a) * delta : ℤ) : ℚ) ≤ x ∧ x < ((((i : ℤ) - a) * delta : ℤ) : ℚ) + delta

instance : Decidable (InBucket a delta i x) := inferInstanceAs (Decidable (_ ∧ _))

/-- The density of an array on the grid, as a sequence. -/
def density (arr : List ℚ) (a n : ℕ) (delta : ℤ) : ℕ → ℚ :=
  seq (estimateDensityFunc arr (grid a n delta) delta)

theorem length_estimateDensityFunc :
    (estimateDensityFunc arr (grid a n delta) delta).length = n := by
  simp [estimateDensityFunc]

/-- Behind the grid the density is zero. -/
theorem density_of_le (hi : n ≤ i) : density arr a n delta i = 0 :=
  List.getD_eq_default _ _ (length_estimateDensityFunc.trans_le hi)

/-- The density is the share of the elements in the bucket. -/
theorem density_of_lt (hi : i < n) :
    density arr a n delta i = (arr.countP fun x => InBucket a delta i x : ℚ) / arr.length := by
  have hlen : i < (estimateDensityFunc arr (grid a n delta) delta).length :=
    length_estimateDensityFunc.symm ▸ hi
  rw [density, seq, List.getD_eq_getElem _ _ hlen]
  simp [estimateDensityFunc, grid, InBucket]

theorem density_nonneg (arr : List ℚ) (a n : ℕ) (delta : ℤ) (i : ℕ) :
    0 ≤ density arr a n delta i := by
  rcases Nat.lt_or_ge i n with hi | hi
  · rw [density_of_lt hi]
    positivity
  · rw [density_of_le hi]

/-- Where the density is not zero there is an element. -/
theorem exists_of_density_ne_zero (h : density arr a n delta i ≠ 0) :
    i < n ∧ ∃ x ∈ arr, InBucket a delta i x := by
  rcases Nat.lt_or_ge i n with hi | hi
  · refine ⟨hi, ?_⟩
    rw [density_of_lt hi] at h
    have hcount : 0 < arr.countP fun x => InBucket a delta i x := by
      refine Nat.pos_of_ne_zero fun h0 => h ?_
      rw [h0, Nat.cast_zero, zero_div]
    obtain ⟨x, hx, hin⟩ := List.countP_pos_iff.1 hcount
    exact ⟨x, hx, of_decide_eq_true hin⟩
  · exact absurd (density_of_le hi) h

/-- The density is positive where there is an element. -/
theorem density_pos (hi : i < n) (hx : x ∈ arr) (hin : InBucket a delta i x) :
    0 < density arr a n delta i := by
  have hcount : 0 < arr.countP fun x => InBucket a delta i x :=
    List.countP_pos_iff.2 ⟨x, hx, decide_eq_true hin⟩
  have hlen : 0 < arr.length := List.length_pos_of_mem hx
  rw [density_of_lt hi]
  positivity

/-- Every time between the ends of the grid is in a bucket. -/
theorem exists_inBucket (hdelta : 0 < delta) (hlo : -((a : ℚ) * delta) ≤ x)
    (hhi : x < ((n : ℚ) - a) * delta) : ∃ i < n, InBucket a delta i x := by
  have hd : (0 : ℚ) < delta := Int.cast_pos.2 hdelta
  have hfloor : -(a : ℤ) ≤ ⌊x / delta⌋ := by
    refine Int.le_floor.2 ((le_div_iff₀ hd).2 ?_)
    rw [Int.cast_neg, Int.cast_natCast, neg_mul]
    exact hlo
  have hlt : ⌊x / delta⌋ < (n : ℤ) - a := by
    refine Int.floor_lt.2 ((div_lt_iff₀ hd).2 ?_)
    rw [Int.cast_sub, Int.cast_natCast, Int.cast_natCast]
    exact hhi
  obtain ⟨i, hi⟩ : ∃ i : ℕ, (i : ℤ) = ⌊x / delta⌋ + a :=
    ⟨(⌊x / delta⌋ + a).toNat, Int.toNat_of_nonneg (by omega)⟩
  refine ⟨i, by omega, ?_⟩
  have hle := (le_div_iff₀ hd).1 (Int.floor_le (x / delta))
  have hgt := (div_lt_iff₀ hd).1 (Int.lt_floor_add_one (x / delta))
  rw [InBucket, hi, add_sub_cancel_right, Int.cast_mul]
  refine ⟨hle, ?_⟩
  linarith

/-- An element of a bucket is less than a bucket away from the grid point. -/
theorem InBucket.lt (hdelta : 0 < delta) (h : InBucket a delta i x) {k : ℤ}
    (hk : (k * delta : ℚ) ≤ x) : k < (i : ℤ) - a + 1 := by
  have hd : (0 : ℚ) < delta := Int.cast_pos.2 hdelta
  have hlt : (k * delta : ℚ) < (((i : ℤ) - a + 1 : ℤ) : ℚ) * delta := by
    refine lt_of_le_of_lt hk (lt_of_lt_of_le h.2 (le_of_eq ?_))
    push_cast
    ring
  exact Int.cast_lt.1 (lt_of_mul_lt_mul_right hlt (le_of_lt hd))

/-- A grid point is not above an element of its bucket. -/
theorem InBucket.le (hdelta : 0 < delta) (h : InBucket a delta i x) {k : ℤ}
    (hk : x ≤ (k * delta : ℚ)) : (i : ℤ) - a ≤ k := by
  have hd : (0 : ℚ) < delta := Int.cast_pos.2 hdelta
  have hle : ((((i : ℤ) - a : ℤ) : ℚ) * delta : ℚ) ≤ (k : ℚ) * delta := by
    rw [← Int.cast_mul]
    exact le_trans h.1 hk
  exact Int.cast_le.1 (le_of_mul_le_mul_right hle hd)

/-! ## The two readings of the convolution -/

/-- The full convolution of the two densities. -/
def fullPmf (httpTimes pingTimes : List ℚ) (a n : ℕ) (delta : ℤ) : ℕ → ℚ :=
  conv (density httpTimes a n delta) (density (negated pingTimes) a n delta)

/-- The grid points of two buckets add up to a grid point when their indices add up to `m + a`. -/
theorem grid_add_eq_iff (hdelta : 0 < delta) {j m : ℕ} (hi : i < n) (hj : j < n) (hm : m < n) :
    (grid a n delta).getD i 0 + (grid a n delta).getD j 0 = (grid a n delta).getD m 0 ↔
      i + j = m + a := by
  rw [grid_getD hi, grid_getD hj, grid_getD hm, ← add_mul,
    mul_left_inj' (Int.ne_of_gt hdelta)]
  omega

/-- The probability of the difference is the entry at `m + a`. -/
theorem differencePmf_eq (hdelta : 0 < delta) {m : ℕ} (hm : m < n) :
    differencePmf (grid a n delta) (estimateDensityFunc httpTimes (grid a n delta) delta)
        (estimateDensityFunc (negated pingTimes) (grid a n delta) delta) m =
      fullPmf httpTimes pingTimes a n delta (m + a) := by
  rw [fullPmf, conv_eq_sum (fun i hi => density_of_le hi) (fun j hj => density_of_le hj),
    differencePmf, length_grid]
  refine Finset.sum_congr rfl fun i hi => Finset.sum_congr rfl fun j hj => ?_
  exact if_congr (grid_add_eq_iff hdelta (Finset.mem_range.1 hi) (Finset.mem_range.1 hj) hm) rfl rfl

/-- What is plotted is the entry at `m + (n - 1) / 2`. -/
theorem fftconvolve_getElem? {fftconvolve : List ℚ → List ℚ → List ℚ} (hfft : IsSame fftconvolve)
    {m : ℕ} (hm : m < n) :
    (fftconvolve (estimateDensityFunc httpTimes (grid a n delta) delta)
        (estimateDensityFunc (negated pingTimes) (grid a n delta) delta))[m]? =
      some (fullPmf httpTimes pingTimes a n delta (m + (n - 1) / 2)) := by
  have hne : ∀ arr, estimateDensityFunc arr (grid a n delta) delta ≠ [] := by
    intro arr hnil
    have hlen : (estimateDensityFunc arr (grid a n delta) delta).length = n :=
      length_estimateDensityFunc
    rw [hnil, List.length_nil] at hlen
    omega
  rw [hfft _ _ (hne _) (hne _), same, length_estimateDensityFunc, length_estimateDensityFunc,
    List.getElem?_map, List.getElem?_range hm]
  rfl

/-- The distribution of the difference is plotted when the two entries are the same everywhere. -/
theorem plotsDifference_iff {fftconvolve : List ℚ → List ℚ → List ℚ} (hfft : IsSame fftconvolve)
    (hdelta : 0 < delta) :
    PlotsDifference httpTimes pingTimes delta (grid a n delta,
        fftconvolve (estimateDensityFunc httpTimes (grid a n delta) delta)
          (estimateDensityFunc (negated pingTimes) (grid a n delta) delta)) ↔
      ∀ m < n, fullPmf httpTimes pingTimes a n delta (m + (n - 1) / 2) =
        fullPmf httpTimes pingTimes a n delta (m + a) := by
  unfold PlotsDifference
  rw [length_grid]
  refine forall₂_congr fun m hm => ?_
  rw [fftconvolve_getElem? hfft hm, differencePmf_eq hdelta hm, Option.some.injEq]

/-- When every ping time is off the grid, the density of the negated times is zero. -/
theorem density_negated_eq_zero (hdelta : 0 < delta)
    (hoff : ∀ p ∈ pingTimes, (a * delta : ℚ) < p) (j : ℕ) :
    density (negated pingTimes) a n delta j = 0 := by
  by_contra hne
  obtain ⟨-, x, hx, hin⟩ := exists_of_density_ne_zero hne
  obtain ⟨p, hp, rfl⟩ := List.mem_map.1 hx
  have hd : (0 : ℚ) < delta := Int.cast_pos.2 hdelta
  have hlow : (-(a : ℚ)) * delta ≤ -p := by
    refine le_trans ?_ hin.1
    push_cast
    have hj : (0 : ℚ) ≤ (j : ℚ) * delta := by positivity
    linarith
  have := hoff p hp
  linarith

/-- Where the full convolution of times that are not negative is not zero. -/
theorem fullPmf_window (hdelta : 0 < delta) (hhttp : ∀ t ∈ httpTimes, 0 ≤ t)
    (hping : ∀ p ∈ pingTimes, 0 ≤ p) {k : ℕ} (hk : k < a ∨ a + n ≤ k) :
    fullPmf httpTimes pingTimes a n delta k = 0 := by
  by_contra hne
  obtain ⟨i, j, hij, hi, hj⟩ := exists_of_conv_ne_zero hne
  obtain ⟨hin, t, ht, hit⟩ := exists_of_density_ne_zero hi
  obtain ⟨-, q, hq, hjq⟩ := exists_of_density_ne_zero hj
  obtain ⟨p, hp, rfl⟩ := List.mem_map.1 hq
  have h1 : (0 : ℤ) < (i : ℤ) - a + 1 := by
    refine hit.lt hdelta ?_
    rw [Int.cast_zero, zero_mul]
    exact hhttp t ht
  have h2 : (j : ℤ) - a ≤ 0 := by
    refine hjq.le hdelta ?_
    rw [Int.cast_zero, zero_mul]
    exact neg_nonpos.2 (hping p hp)
  omega

/-! ## The theorem -/

/-- The largest ping time has a whole number of buckets. -/
theorem below_nonneg (hdelta : 0 < delta) (hpos : ∀ p ∈ pingTimes, 0 ≤ p) :
    0 ≤ below pingTimes delta := by
  have hd : (0 : ℚ) < delta := Int.cast_pos.2 hdelta
  have hmax : 0 ≤ pingTimes.max?.getD 0 := by
    cases h : pingTimes.max? with
    | none => exact le_refl 0
    | some x => exact hpos x (List.max?_eq_some_iff.1 h).1
  have hfloor : (0 : ℚ) ≤ (⌊pingTimes.max?.getD 0⌋ : ℤ) := Int.cast_nonneg (Int.floor_nonneg.2 hmax)
  exact Int.ceil_nonneg (div_nonneg hfloor (le_of_lt hd))

/-- A nonnegative largest HTTP time is on the grid. -/
theorem exists_http_inBucket (hdelta : 0 < delta) (hhttp : httpTimes ≠ [])
    (hpos : ∀ t ∈ httpTimes, 0 ≤ t) {b : ℕ} (hb : above httpTimes delta = b) :
    ∃ i < a + b + 1, ∃ t ∈ httpTimes, InBucket a delta i t := by
  have hd : (0 : ℚ) < delta := Int.cast_pos.2 hdelta
  obtain ⟨t, ht, hmax, -⟩ := exists_max? hhttp
  have hle : t ≤ b * delta := by
    rw [above, hmax, Option.getD_some] at hb
    have := (div_le_iff₀ hd).1 (Int.le_ceil (t / delta))
    rwa [hb, Int.cast_natCast] at this
  obtain ⟨i, hi, hin⟩ := exists_inBucket (a := a) (n := a + b + 1) (x := t) hdelta
    (by have := hpos t ht; have : (0 : ℚ) ≤ a * delta := by positivity
        linarith)
    (by push_cast; linarith)
  exact ⟨i, hi, t, ht, hin⟩

/-- A ping time on the grid. -/
theorem exists_ping_inBucket (hdelta : 0 < delta) {p : ℚ} (hp : p ∈ pingTimes) (hp0 : 0 ≤ p)
    (hle : p ≤ a * delta) (b : ℕ) :
    ∃ j < a + b + 1, ∃ q ∈ negated pingTimes, InBucket a delta j q := by
  have hd : (0 : ℚ) < delta := Int.cast_pos.2 hdelta
  obtain ⟨j, hj, hin⟩ := exists_inBucket (a := a) (n := a + b + 1) (x := -p) hdelta
    (neg_le_neg hle)
    (by have : (0 : ℚ) ≤ b * delta := by positivity
        push_cast; linarith)
  exact ⟨j, hj, -p, List.mem_map_of_mem hp, hin⟩

/-- `convolute` plots the distribution of the difference exactly when the grid is aligned. (For
HTTP times some of which are negative, being aligned is still enough.) -/
theorem plotted_exactly (fftconvolve : List ℚ → List ℚ → List ℚ) (hfft : IsSame fftconvolve)
    (httpTimes pingTimes : List ℚ) (delta : ℤ) (hdelta : 0 < delta) (hhttp : httpTimes ≠ [])
    (hping : pingTimes ≠ []) (hpos : ∀ p ∈ pingTimes, 0 ≤ p) :
    ∃ r, convolute fftconvolve httpTimes pingTimes delta hdelta = some r ∧
      (Aligned httpTimes pingTimes delta → PlotsDifference httpTimes pingTimes delta r) ∧
      ((∀ t ∈ httpTimes, 0 ≤ t) → PlotsDifference httpTimes pingTimes delta r →
        Aligned httpTimes pingTimes delta) := by
  obtain ⟨a, ha⟩ := Int.eq_ofNat_of_zero_le (below_nonneg hdelta hpos)
  refine ⟨_, convolute_eq fftconvolve hhttp hping hpos ha, fun haligned => ?_,
    fun hnonneg hplot => ?_⟩
  · rw [plotsDifference_iff hfft hdelta]
    intro m hm
    unfold Aligned at haligned
    rw [ha] at haligned
    rcases haligned with hb | hb | hoff
    · rw [show ((a + above httpTimes delta + 1).toNat - 1) / 2 = a by omega]
    · rw [show ((a + above httpTimes delta + 1).toNat - 1) / 2 = a by omega]
    · -- every ping time is off the grid
      have hzero := density_negated_eq_zero (n := (a + above httpTimes delta + 1).toNat) hdelta hoff
      unfold fullPmf
      rw [conv_eq_zero hzero, conv_eq_zero hzero]
  · obtain ⟨b, hb⟩ : ∃ b : ℕ, above httpTimes delta = b := by
      refine Int.eq_ofNat_of_zero_le (Int.ceil_nonneg ?_)
      obtain ⟨t, ht, hmax, -⟩ := exists_max? hhttp
      rw [hmax, Option.getD_some]
      exact div_nonneg (hnonneg t ht) (le_of_lt (Int.cast_pos.2 hdelta))
    rw [plotsDifference_iff hfft hdelta, hb,
      show ((a : ℤ) + b + 1).toNat = a + b + 1 by omega] at hplot
    unfold Aligned
    rw [ha, hb]
    by_contra hnot
    obtain ⟨hne, hne', hon⟩ : b ≠ a ∧ b ≠ a + 1 ∧ ∃ p ∈ pingTimes, p ≤ (a : ℚ) * delta := by
      refine ⟨fun h => hnot (.inl (by omega)), fun h => hnot (.inr (.inl (by omega))), ?_⟩
      by_contra hall
      refine hnot (.inr (.inr fun p hp => lt_of_not_ge fun hle => hall ⟨p, hp, ?_⟩))
      simpa using hle
    obtain ⟨p, hp, hple⟩ := hon
    -- the full convolution would be zero everywhere, but an HTTP time and a ping time meet
    have hzero := eq_zero_of_shift_eq (fun k hk => fullPmf_window hdelta hnonneg hpos hk)
      (show (a + b + 1 - 1) / 2 ≠ a by omega) hplot
    obtain ⟨i, hi, t, ht, hit⟩ := exists_http_inBucket (a := a) hdelta hhttp hnonneg hb
    obtain ⟨j, hj, q, hq, hjq⟩ := exists_ping_inBucket hdelta hp (hpos p hp) hple b
    have hpos' := conv_pos (density_nonneg httpTimes a (a + b + 1) delta)
      (density_nonneg (negated pingTimes) a (a + b + 1) delta) (density_pos hi ht hit)
      (density_pos hj hq hjq)
    exact absurd (hzero (i + j)) (ne_of_gt hpos')

end

/-- `same` is what it is assumed to be. -/
theorem isSame_same : IsSame same := fun _ _ _ _ => rfl

/-- Three HTTP times and three ping times: the grid has three points above zero and two below. -/
theorem plotted_threeTimes :
    ∃ r, convolute same [50000, 250000, 120000] [20000, 200000, 260001 / 2] 100000 (by decide) =
        some r ∧
      PlotsDifference [50000, 250000, 120000] [20000, 200000, 260001 / 2] 100000 r := by
  obtain ⟨r, hr, hplot, -⟩ := plotted_exactly same isSame_same [50000, 250000, 120000]
    [20000, 200000, 260001 / 2] 100000 (by decide) (List.cons_ne_nil _ _) (List.cons_ne_nil _ _)
    (by decide +kernel)
  exact ⟨r, hr, hplot (.inr (.inl (by decide +kernel)))⟩

/-- An HTTP time of three buckets and a ping time of one differ by two buckets, and are plotted
at one. -/
theorem difference_misplotted :
    convolute same [300000] [100000] 100000 (by decide) =
        some ([-100000, 0, 100000, 200000, 300000], [0, 0, 1, 0, 0]) ∧
      differencePmf [-100000, 0, 100000, 200000, 300000] [0, 0, 0, 0, 1] [1, 0, 0, 0, 0] 3 = 1 ∧
      ¬ PlotsDifference [300000] [100000] 100000
        ([-100000, 0, 100000, 200000, 300000], [0, 0, 1, 0, 0]) := by
  refine ⟨?_, by decide +kernel, fun hplot => ?_⟩
  · have hmin : (negated [100000]).min? = some (-100000) := by decide +kernel
    have hmax : ([300000] : List ℚ).max? = some 300000 := rfl
    have hlo : (truncate (-100000)).fdiv 100000 * 100000 = -100000 := by decide +kernel
    have hhi : ⌈(300000 : ℚ) / (100000 : ℤ)⌉ * 100000 = 300000 := by decide +kernel
    have hz : zVals 100000 (by decide) (-100000) 300000 =
        [-100000, 0, 100000, 200000, 300000] := by simp [zVals]
    rw [convolute, hmin, hmax]
    simp only [Option.bind_eq_bind, Option.bind_some, Option.pure_def, hlo, hhi, hz]
    decide +kernel
  · have hthree := hplot 3 (by decide)
    revert hthree
    decide +kernel

end HandlePing
