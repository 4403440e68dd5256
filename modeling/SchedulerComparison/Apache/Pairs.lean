import SchedulerComparison.Apache.Mass

/-!
# What each plotted value counts

`convolute` returns the values that are plotted over the grid. `counts_pairs` says what they are,
for any HTTP times and ping times: the value at index `m` is the share, among all pairs of an HTTP
time and a ping time, of those whose ping time the grid reaches and whose difference in buckets is a
number that goes up with `m` from `firstShown` on. Together the values are the share of the pairs
that are shown at all, so that they sum to one only when every pair is.
-/

open Convolution

namespace HandlePing

section
variable (httpTimes pingTimes : List ℚ) (delta : ℤ) (z : List ℤ)

/-! ## The statement -/

/-- The bucket of width `delta` that a time is in, counted from the one that starts at zero. -/
def bucket (x : ℚ) : ℤ := ⌊x / delta⌋

/-- The difference of an HTTP time and a ping time, as `convolute` takes it: in buckets. -/
def bucketDifference (t p : ℚ) : ℤ := bucket delta t + bucket delta (-p)

/-- The grid reaches the ping time. -/
def Reached (p : ℚ) : Prop := ((z.headD 0 : ℤ) : ℚ) ≤ -p

instance (p : ℚ) : Decidable (Reached z p) := inferInstanceAs (Decidable (_ ≤ _))

/-- The difference that is plotted at the first grid point. -/
def firstShown : ℤ := 2 * (z.headD 0 / delta) + ((z.length - 1) / 2 : ℕ)

/-- The pair is counted at a grid point. -/
def Shown (t p : ℚ) : Prop :=
  Reached z p ∧ firstShown delta z ≤ bucketDifference delta t p ∧
    bucketDifference delta t p < firstShown delta z + z.length

instance (t p : ℚ) : Decidable (Shown delta z t p) := inferInstanceAs (Decidable (_ ∧ _ ∧ _))

/-- The share of the pairs of an HTTP time and a ping time. -/
def share (P : ℚ → ℚ → Prop) [∀ t p, Decidable (P t p)] : ℚ :=
  ((httpTimes ×ˢ pingTimes).countP fun pair => P pair.1 pair.2) /
    (httpTimes.length * pingTimes.length)

/-- The values are shares of the pairs. -/
structure CountsPairs (pmf : List ℚ) : Prop where
  length_eq : pmf.length = z.length
  value : ∀ m < z.length, pmf[m]? = some (share httpTimes pingTimes fun t p =>
    Reached z p ∧ bucketDifference delta t p = firstShown delta z + m)
  sum : pmf.sum = share httpTimes pingTimes (Shown delta z)

end

/-! ## Shares -/

section
variable {httpTimes pingTimes : List ℚ} {P Q : ℚ → ℚ → Prop} [∀ t p, Decidable (P t p)]
  [∀ t p, Decidable (Q t p)]

/-- A share depends only on the pairs that are counted. -/
theorem share_congr (h : ∀ t ∈ httpTimes, ∀ p ∈ pingTimes, P t p ↔ Q t p) :
    share httpTimes pingTimes P = share httpTimes pingTimes Q := by
  unfold share
  congr 2
  refine List.countP_congr fun pair hpair => ?_
  obtain ⟨ht, hp⟩ := List.mem_product.1 hpair
  simpa using h _ ht _ hp

/-- All the pairs. -/
theorem length_pairs : (httpTimes ×ˢ pingTimes).length = httpTimes.length * pingTimes.length :=
  List.length_product httpTimes pingTimes

/-- A share is one when all the pairs are counted. -/
theorem share_eq_one_iff (hhttp : httpTimes ≠ []) (hping : pingTimes ≠ []) :
    share httpTimes pingTimes P = 1 ↔ ∀ t ∈ httpTimes, ∀ p ∈ pingTimes, P t p := by
  have hlen : ((httpTimes.length * pingTimes.length : ℕ) : ℚ) ≠ 0 := by simp [hhttp, hping]
  rw [share, ← Nat.cast_mul, div_eq_one_iff_eq hlen, Nat.cast_inj, ← length_pairs,
    List.countP_eq_length]
  constructor
  · intro h t ht p hp
    exact of_decide_eq_true (h (t, p) (List.mem_product.2 ⟨ht, hp⟩))
  · rintro h ⟨t, p⟩ hpair
    obtain ⟨ht, hp⟩ := List.mem_product.1 hpair
    exact decide_eq_true (h t ht p hp)

/-- Shares of pairs that are told apart by a number add up. -/
theorem sum_share (f : ℚ → ℚ → ℤ) (first : ℤ) (n : ℕ) :
    ((List.range n).map fun m : ℕ =>
        share httpTimes pingTimes fun t p => P t p ∧ f t p = first + m).sum =
      share httpTimes pingTimes fun t p => P t p ∧ first ≤ f t p ∧ f t p < first + n := by
  induction n with
  | zero =>
    have hnone : (httpTimes ×ˢ pingTimes).countP (fun pair => decide (P pair.1 pair.2 ∧
        first ≤ f pair.1 pair.2 ∧ f pair.1 pair.2 < first + (0 : ℕ))) = 0 := by
      refine List.countP_eq_zero.2 fun pair _ h => ?_
      have hbounds := (of_decide_eq_true h).2
      omega
    rw [share, hnone, Nat.cast_zero, zero_div]
    rfl
  | succ n ih =>
    rw [List.range_succ, List.map_append, List.sum_append, ih, List.map_singleton,
      List.sum_singleton, share, share, share, ← add_div, ← Nat.cast_add]
    congr 2
    -- no pair is counted in both sums
    refine Sums.countP_add_countP (fun pair => ?_) (fun pair => ?_) _ <;>
      simp only [decide_eq_true_eq, decide_eq_false_iff_not]
    · push_cast
      constructor
      · rintro ⟨hP, hlo, hhi⟩
        have hle : f pair.1 pair.2 ≤ first + n := by omega
        rcases lt_or_eq_of_le hle with hlt | heq
        · exact .inl ⟨hP, hlo, hlt⟩
        · exact .inr ⟨hP, heq⟩
      · rintro (⟨hP, hlo, hhi⟩ | ⟨hP, heq⟩)
        · exact ⟨hP, hlo, by omega⟩
        · exact ⟨hP, by omega, by omega⟩
    · rintro ⟨-, -, hhi⟩ ⟨-, heq⟩
      omega

end

/-! ## The densities are shares -/

section
variable {httpTimes pingTimes arr : List ℚ} {delta : ℤ} {a b n : ℕ} {x : ℚ}

/-- The bucket of the grid that a time is in. -/
theorem inBucket_iff (hdelta : 0 < delta) (i : ℕ) :
    InBucket a delta i x ↔ bucket delta x + a = i := by
  have hd : (0 : ℚ) < delta := Int.cast_pos.2 hdelta
  have hfloor : bucket delta x = (i : ℤ) - a ↔ InBucket a delta i x := by
    rw [bucket, Int.floor_eq_iff, le_div_iff₀ hd, div_lt_iff₀ hd, add_mul, one_mul, InBucket,
      Int.cast_mul]
  rw [← hfloor]
  omega

/-- On a grid that no time is behind, the density is the share of the times of each bucket. -/
theorem density_eq (hdelta : 0 < delta) (h : ∀ x ∈ arr, bucket delta x + a < n) :
    density arr a n delta =
      fun i => (counts (fun x => bucket delta x + a) arr i : ℚ) / arr.length := by
  funext i
  rcases Nat.lt_or_ge i n with hi | hi
  · rw [density_of_lt hi]
    congr 2
    exact List.countP_congr fun x _ => by simp [inBucket_iff hdelta]
  · have hnone : counts (fun x => bucket delta x + a) arr i = 0 := by
      refine List.countP_eq_zero.2 fun x hx heq => ?_
      have hlt := h x hx
      have heq : bucket delta x + a = i := of_decide_eq_true heq
      omega
    rw [density_of_le hi, hnone, Nat.cast_zero, zero_div]

/-- The full convolution is the share of the pairs whose buckets add up. -/
theorem fullPmf_eq (hdelta : 0 < delta) (hhttp : ∀ t ∈ httpTimes, 0 ≤ bucket delta t)
    (hhttpn : ∀ t ∈ httpTimes, bucket delta t + a < n)
    (hpingn : ∀ p ∈ pingTimes, bucket delta (-p) + a < n) (k : ℕ) :
    fullPmf httpTimes pingTimes a n delta k = share httpTimes pingTimes fun t p =>
      0 ≤ bucket delta (-p) + a ∧ bucketDifference delta t p = k - 2 * a := by
  have hneg : ∀ x ∈ negated pingTimes, bucket delta x + a < n := by
    intro x hx
    obtain ⟨p, hp, rfl⟩ := List.mem_map.1 hx
    exact hpingn p hp
  have hlen : (negated pingTimes).length = pingTimes.length := List.length_map _
  rw [fullPmf, density_eq hdelta hhttpn, density_eq hdelta hneg, conv_div, conv_counts, hlen,
    share]
  congr 2
  have hmap : httpTimes ×ˢ negated pingTimes =
      (httpTimes ×ˢ pingTimes).map fun pair => (pair.1, -pair.2) := by
    simp [negated, List.product, List.map_flatMap, Function.comp_def, SProd.sprod]
  rw [hmap, List.countP_map]
  refine List.countP_congr fun pair hpair => ?_
  have ht := hhttp _ (List.mem_product.1 hpair).1
  rw [Function.comp_apply, decide_eq_true_iff, decide_eq_true_iff, bucketDifference]
  dsimp only
  omega

/-! ## The theorem -/

/-- On the grid, every value is a share. -/
theorem countsPairs_grid {fftconvolve : List ℚ → List ℚ → List ℚ} (hfft : IsSame fftconvolve)
    (hdelta : 0 < delta) (hn : 0 < n) (hhttp : ∀ t ∈ httpTimes, 0 ≤ bucket delta t)
    (hhttpn : ∀ t ∈ httpTimes, bucket delta t + a < n)
    (hpingn : ∀ p ∈ pingTimes, bucket delta (-p) + a < n) :
    CountsPairs httpTimes pingTimes delta (grid a n delta)
      (fftconvolve (estimateDensityFunc httpTimes (grid a n delta) delta)
        (estimateDensityFunc (negated pingTimes) (grid a n delta) delta)) := by
  have hd : (0 : ℚ) < delta := Int.cast_pos.2 hdelta
  have hhead : (grid a n delta).headD 0 = -a * delta := by
    rw [List.headD_eq_head?_getD, List.head?_eq_getElem?, ← List.getD_eq_getElem?_getD,
      grid_getD hn, Nat.cast_zero, zero_sub]
  have hlen : (grid a n delta).length = n := length_grid
  have hfirst : firstShown delta (grid a n delta) = ((n - 1) / 2 : ℕ) - 2 * a := by
    rw [firstShown, hhead, hlen, Int.mul_ediv_cancel _ (Int.ne_of_gt hdelta)]
    omega
  have hreached (p : ℚ) : Reached (grid a n delta) p ↔ 0 ≤ bucket delta (-p) + a := by
    have hle : 0 ≤ bucket delta (-p) + a ↔ -(a : ℤ) ≤ ⌊-p / delta⌋ := by
      rw [bucket]
      omega
    rw [hle, Int.le_floor, le_div_iff₀ hd, Reached, hhead, Int.cast_mul]
  have hvalue : ∀ m < n, (fftconvolve (estimateDensityFunc httpTimes (grid a n delta) delta)
      (estimateDensityFunc (negated pingTimes) (grid a n delta) delta))[m]? =
        some (share httpTimes pingTimes fun t p => Reached (grid a n delta) p ∧
          bucketDifference delta t p = firstShown delta (grid a n delta) + m) := by
    intro m hm
    rw [fftconvolve_getElem? hfft hm, fullPmf_eq hdelta hhttp hhttpn hpingn]
    refine congrArg some (share_congr fun t _ p _ => and_congr (hreached p).symm ?_)
    rw [hfirst]
    push_cast
    omega
  have hpmf : (fftconvolve (estimateDensityFunc httpTimes (grid a n delta) delta)
      (estimateDensityFunc (negated pingTimes) (grid a n delta) delta)).length = n := by
    have hne (arr : List ℚ) : estimateDensityFunc arr (grid a n delta) delta ≠ [] := by
      refine List.ne_nil_of_length_pos ?_
      rwa [length_estimateDensityFunc]
    rw [hfft _ _ (hne _) (hne _), same, List.length_map, List.length_range,
      length_estimateDensityFunc]
  refine ⟨by rw [hpmf, hlen], fun m hm => hvalue m (hlen ▸ hm), ?_⟩
  have hlist : fftconvolve (estimateDensityFunc httpTimes (grid a n delta) delta)
      (estimateDensityFunc (negated pingTimes) (grid a n delta) delta) =
        (List.range n).map fun m : ℕ => share httpTimes pingTimes fun t p =>
          Reached (grid a n delta) p ∧
            bucketDifference delta t p = firstShown delta (grid a n delta) + m := by
    refine List.ext_getElem? fun m => ?_
    rcases Nat.lt_or_ge m n with hm | hm
    · rw [hvalue m hm, List.getElem?_map, List.getElem?_range hm]
      rfl
    · rw [List.getElem?_eq_none (hpmf.trans_le hm), List.getElem?_eq_none (by simpa using hm)]
  rw [hlist, sum_share (P := fun _ p => Reached (grid a n delta) p) (bucketDifference delta)]
  exact share_congr fun t _ p _ => by rw [Shown, hlen]

/-- Every value that is plotted is the share of the pairs that it counts. -/
theorem counts_pairs (fftconvolve : List ℚ → List ℚ → List ℚ) (hfft : IsSame fftconvolve)
    (httpTimes pingTimes : List ℚ) (delta : ℤ) (hdelta : 0 < delta) (hhttp : httpTimes ≠ [])
    (hping : pingTimes ≠ []) (hhttp0 : ∀ t ∈ httpTimes, 0 ≤ t) (hping0 : ∀ p ∈ pingTimes, 0 ≤ p) :
    ∃ z pmf, convolute fftconvolve httpTimes pingTimes delta hdelta = some (z, pmf) ∧
      CountsPairs httpTimes pingTimes delta z pmf ∧
      (pmf.sum = 1 ↔ ∀ t ∈ httpTimes, ∀ p ∈ pingTimes, Shown delta z t p) := by
  have hd : (0 : ℚ) < delta := Int.cast_pos.2 hdelta
  obtain ⟨a, ha⟩ := Int.eq_ofNat_of_zero_le (below_nonneg hdelta hping0)
  obtain ⟨t, ht, htop, htmax⟩ := exists_max? hhttp
  obtain ⟨b, hb⟩ := Int.eq_ofNat_of_zero_le
    (Int.ceil_nonneg (div_nonneg (hhttp0 t ht) (le_of_lt hd)))
  have habove : above httpTimes delta = b := by rw [above, htop, Option.getD_some, hb]
  have hlen : (a + above httpTimes delta + 1).toNat = a + b + 1 := by omega
  have hbucket : ∀ s ∈ httpTimes, 0 ≤ bucket delta s ∧ bucket delta s ≤ b := by
    intro s hs
    refine ⟨Int.floor_nonneg.2 (div_nonneg (hhttp0 s hs) (le_of_lt hd)), ?_⟩
    rw [← hb]
    exact le_trans (Int.floor_le_floor (div_le_div_of_nonneg_right (htmax s hs) (le_of_lt hd)))
      (Int.floor_le_ceil _)
  have hneg : ∀ p ∈ pingTimes, bucket delta (-p) ≤ 0 := by
    intro p hp
    have hle : -p / delta ≤ ((0 : ℤ) : ℚ) := by
      rw [Int.cast_zero]
      exact div_nonpos_of_nonpos_of_nonneg (neg_nonpos.2 (hping0 p hp)) (le_of_lt hd)
    exact Int.cast_le.1 (le_trans (Int.floor_le _) hle)
  have hcounts := @countsPairs_grid httpTimes pingTimes delta a (a + b + 1) fftconvolve hfft
    hdelta (Nat.succ_pos _) (fun s hs => (hbucket s hs).1)
    (fun s hs => by have := (hbucket s hs).2; push_cast; omega)
    (fun p hp => by have := hneg p hp; push_cast; omega)
  refine ⟨_, _, convolute_eq fftconvolve hhttp hping hping0 ha, ?_⟩
  rw [hlen]
  exact ⟨hcounts, by rw [hcounts.sum, share_eq_one_iff hhttp hping]⟩

end

/-- Two HTTP times and a ping time. -/
theorem counts_twoTimes : ∃ z pmf,
    convolute same [100000, 250000] [50000] 100000 (by decide) = some (z, pmf) ∧
      CountsPairs [100000, 250000] [50000] 100000 z pmf ∧
      (pmf.sum = 1 ↔ ∀ t ∈ [100000, 250000], ∀ p ∈ [50000], Shown 100000 z t p) :=
  counts_pairs same isSame_same [100000, 250000] [50000] 100000 (by decide)
    (List.cons_ne_nil _ _) (List.cons_ne_nil _ _) (by decide +kernel) (by decide +kernel)

end HandlePing
