import SchedulerComparison.Hackbench.ProcessOptions
import SchedulerComparison.Hackbench.Stop

/-!
# The table of the workers

`main` asks `calloc` for `num_fds * 2 * num_groups` entries, in 32-bit arithmetic, and `group`
stores its workers at `tab_offset + i` and `tab_offset + num_fds + i`. Worker `w` of the run is
stored at `w` modulo `2^32` (`storesAt_eq`), and the size of the table is the number of workers
modulo `2^32`: the table is large enough exactly when the number of workers is below `2^32`
(`tableFits_iff`). `process_options` accepts larger ones.
-/

open Transition Getopt

namespace Hackbench

/-! ## Storing -/

/-- Where `main` is about to store a worker. -/
def storesAt? (o : Options) (s : State) : Option UInt32 :=
  match s.point with
  | .receiverStore _ j _ => some (s.totalChildren + j)
  | .senderStore _ j _ => some (s.totalChildren + o.numFds + j)
  | _ => none

/-- Where a step stores a worker. -/
def stores? (o : Options) (s : State) : Event → Option UInt32
  | .main _ => storesAt? o s
  | _ => none

/-- The table is large enough, and no entry is used twice. -/
structure TableFits (o : Options) : Prop where
  inTable : ∀ s, Reach (step o) Free start s → ∀ k, storesAt? o s = some k → k < o.tabSize
  distinct : ∀ es s, exec (step o) Free start es = some s →
    (observed (step o) (stores? o) start es).Nodup

/-! ## The workers, counted -/

/-- The number of workers that `main` creates. -/
def Options.total (o : Options) : Nat := 2 * o.numFds.toNat * o.numGroups.toNat

/-- The number of the next worker, where `main` creates the groups: those before it have been
created. -/
def nextWorker (o : Options) : MainPoint → Option Nat
  | .groupHead i | .sndMalloc i => some (2 * o.numFds.toNat * i.toNat)
  | .receiverHead i j | .receiverMalloc i j | .receiverPipe i j | .receiverFork i j
  | .receiverStore i j _ => some (2 * o.numFds.toNat * i.toNat + j.toNat)
  | .senderHead i j | .senderFork i j | .senderStore i j _ =>
    some (2 * o.numFds.toNat * i.toNat + o.numFds.toNat + j.toNat)
  | .groupReturned i _ | .count i _ => some (2 * o.numFds.toNat * (i.toNat + 1))
  | _ => none

/-- The variables of the loops at a control point. `total_children` is the number of workers of the
groups before this one, which may have wrapped. -/
def Counting (o : Options) (totalChildren : UInt32) : MainPoint → Prop
  | .groupHead i => i.toNat ≤ o.numGroups.toNat ∧ totalChildren = o.numFds * 2 * i
  | .sndMalloc i | .groupReturned i _ => i.toNat < o.numGroups.toNat ∧
      totalChildren = o.numFds * 2 * i
  | .receiverHead i j | .senderHead i j => i.toNat < o.numGroups.toNat ∧
      totalChildren = o.numFds * 2 * i ∧ j.toNat ≤ o.numFds.toNat
  | .receiverMalloc i j | .receiverPipe i j | .receiverFork i j | .receiverStore i j _
  | .senderFork i j | .senderStore i j _ => i.toNat < o.numGroups.toNat ∧
      totalChildren = o.numFds * 2 * i ∧ j.toNat < o.numFds.toNat
  | .count i c => i.toNat < o.numGroups.toNat ∧ totalChildren = o.numFds * 2 * i ∧
      c = o.numFds * 2
  | _ => True

section
variable {o : Options} {s s' : State} {e : Event}

/-! ## Arithmetic -/

/-- The workers of the groups before group `i`, in 32-bit arithmetic. -/
theorem numFds_two_mul (o : Options) (i : UInt32) :
    o.numFds * 2 * i = UInt32.ofNat (2 * o.numFds.toNat * i.toNat) := by
  rw [UInt32.mul_comm o.numFds 2]
  simp

/-- The size of the table is the number of workers in 32-bit arithmetic. -/
theorem tabSize_eq (o : Options) : o.tabSize = UInt32.ofNat o.total :=
  numFds_two_mul o o.numGroups

/-- A group is as many workers. -/
theorem group_le {i : UInt32} (h : i.toNat < o.numGroups.toNat) :
    2 * o.numFds.toNat * i.toNat + 2 * o.numFds.toNat ≤ o.total := by
  rw [← Nat.mul_succ]
  exact Nat.mul_le_mul_left _ h

/-- A worker is stored at its number, in 32-bit arithmetic. -/
theorem storesAt_eq {k : UInt32} (hc : Counting o s.totalChildren s.point)
    (h : storesAt? o s = some k) :
    ∃ w, nextWorker o s.point = some w ∧ w < o.total ∧ k = UInt32.ofNat w := by
  unfold storesAt? at h
  split at h
  · next i j pid hp =>
    rw [hp] at hc ⊢
    obtain ⟨hi, htotal, hj⟩ := hc
    cases h
    have := group_le hi
    refine ⟨_, rfl, by omega, ?_⟩
    rw [htotal, numFds_two_mul, UInt32.ofNat_add, UInt32.ofNat_toNat]
  · next i j pid hp =>
    rw [hp] at hc ⊢
    obtain ⟨hi, htotal, hj⟩ := hc
    cases h
    have := group_le hi
    refine ⟨_, rfl, by omega, ?_⟩
    rw [htotal, numFds_two_mul, UInt32.ofNat_add, UInt32.ofNat_add, UInt32.ofNat_toNat,
      UInt32.ofNat_toNat]
  · cases h

/-! ## The workers are created in order -/

/-- From `s` to `s'`, the number of the next worker does not drop, and where a worker was stored it
grows. -/
def Advances (o : Options) (s s' : State) (stored : Bool) : Prop :=
  Counting o s'.totalChildren s'.point ∧ ∀ w', nextWorker o s'.point = some w' →
    ∃ w, nextWorker o s.point = some w ∧ w ≤ w' ∧ (stored = true → w < w')

theorem nextWorker_eq_none {l : MainPoint} (h : l.part ≠ .groups) : nextWorker o l = none := by
  cases l <;> first | rfl | exact absurd rfl h

/-- After the groups, nothing is created. -/
theorem advances_of_part {stored : Bool} (h : s'.point.part ≠ .groups) :
    Advances o s s' stored := by
  refine ⟨?_, fun w' hw => by cases (nextWorker_eq_none h).symm.trans hw⟩
  revert h
  cases s'.point <;> intro h <;> trivial

/-- After the groups, `main` does not go back to them. -/
theorem main_part {ret : Int} (h : s.point.part ≠ .groups) (hs : mainStep o s ret = some s') :
    s'.point.part ≠ .groups := by
  cases hp : s.point <;> rw [hp] at h <;> simp only [mainStep, hp] at hs
  case setScheduler | readyHead =>
    cases hs
    dsimp only [State.goto]
    split <;> exact Part.noConfusion
  case readReady | kill =>
    split at hs
    · split at hs <;> cases hs
      exact Part.noConfusion
    · cases hs
      exact Part.noConfusion
  case wake | reap | freeTab => split at hs <;> cases hs <;> exact Part.noConfusion
  case waitHead k n after =>
    cases hs
    dsimp only [State.goto]
    split
    · exact Part.noConfusion
    · cases after <;> exact Part.noConfusion
  case wait =>
    obtain ⟨-, -, rfl⟩ | ⟨i, -, -, -, rfl⟩ := State.waitWorker_cases hs <;> exact Part.noConfusion
  case startTime | sigcatcher | longjmped | ignoreTerm | reapAll | report | exit =>
    cases hs
    exact Part.noConfusion
  case exited => cases hs
  all_goals exact absurd rfl h

/-- A step that stores nothing. -/
theorem Advances.of_le {l : MainPoint} {w w' : Nat} (hp : s.point = l)
    (hc : Counting o s'.totalChildren s'.point) (hw : nextWorker o l = some w)
    (hw' : nextWorker o s'.point = some w') (hle : w ≤ w') (hno : storesAt? o s = none) :
    Advances o s s' (storesAt? o s).isSome := by
  refine ⟨hc, fun x hx => ?_⟩
  cases hw'.symm.trans hx
  exact ⟨w, hp ▸ hw, hle, fun hst => by rw [hno] at hst; cases hst⟩

/-- A step that stores the worker whose turn it is. -/
theorem Advances.of_lt {stored : Bool} {l : MainPoint} {w w' : Nat} (hp : s.point = l)
    (hc : Counting o s'.totalChildren s'.point) (hw : nextWorker o l = some w)
    (hw' : nextWorker o s'.point = some w') (hlt : w < w') : Advances o s s' stored := by
  refine ⟨hc, fun x hx => ?_⟩
  cases hw'.symm.trans hx
  exact ⟨w, hp ▸ hw, Nat.le_of_lt hlt, fun _ => hlt⟩

/-- `main` creates the workers in order. -/
theorem main_advances {ret : Int} (hc : Counting o s.totalChildren s.point)
    (hs : mainStep o s ret = some s') : Advances o s s' (storesAt? o s).isSome := by
  by_cases hpart : s.point.part ≠ .groups
  · exact advances_of_part (main_part hpart hs)
  have hfds := numFds_pos o
  have hzero : (0 : UInt32).toNat = 0 := rfl
  cases hp : s.point <;> rw [hp] at hc hpart <;> simp only [mainStep, hp] at hs
  case groupHead i =>
    obtain ⟨hi, htotal⟩ := hc
    cases hs
    split
    · next hlt =>
      exact .of_le hp ⟨UInt32.lt_iff_toNat_lt.1 hlt, htotal⟩ rfl rfl (Nat.le_refl _)
        (by rw [storesAt?, hp])
    · exact advances_of_part Part.noConfusion
  case sndMalloc i =>
    cases hs
    split
    · exact .of_le hp ⟨hc.1, hc.2, Nat.zero_le _⟩ rfl rfl (Nat.le_add_right _ _)
        (by rw [storesAt?, hp])
    · exact .of_le hp hc rfl rfl (Nat.mul_le_mul_left _ (Nat.le_succ _)) (by rw [storesAt?, hp])
  case receiverHead i j =>
    obtain ⟨hi, htotal, hj⟩ := hc
    cases hs
    split
    · next hlt =>
      exact .of_le hp ⟨hi, htotal, UInt32.lt_iff_toNat_lt.1 hlt⟩ rfl rfl (Nat.le_refl _)
        (by rw [storesAt?, hp])
    · refine .of_le hp ⟨hi, htotal, Nat.zero_le _⟩ rfl rfl ?_ (by rw [storesAt?, hp])
      omega
  case receiverMalloc i j =>
    obtain ⟨hi, htotal, hj⟩ := hc
    cases hs
    split
    · exact .of_le hp ⟨hi, htotal, hj⟩ rfl rfl (Nat.le_refl _) (by rw [storesAt?, hp])
    · refine .of_le hp ⟨hi, htotal⟩ rfl rfl ?_ (by rw [storesAt?, hp])
      rw [Nat.mul_succ]
      omega
  case receiverPipe i j =>
    cases hs
    split
    · exact .of_le hp hc rfl rfl (Nat.le_refl _) (by rw [storesAt?, hp])
    · exact advances_of_part Part.noConfusion
  case receiverFork i j | senderFork i j =>
    obtain ⟨-, rfl⟩ | ⟨-, -, -, rfl⟩ := State.fork_cases hs
    · exact .of_le hp hc rfl rfl (Nat.le_refl _) (by rw [storesAt?, hp])
    · exact .of_le hp hc rfl rfl (Nat.le_refl _) (by rw [storesAt?, hp])
  case receiverStore i j pid =>
    obtain ⟨hi, htotal, hj⟩ := hc
    obtain ⟨-, rfl⟩ := State.store_cases hs
    have hnext := toNat_succ hj
    split
    · refine .of_lt hp ⟨hi, htotal⟩ rfl rfl ?_
      rw [Nat.mul_succ]
      omega
    · refine .of_lt hp ⟨hi, htotal, hnext.trans_le hj⟩ rfl rfl ?_
      omega
  case senderHead i j =>
    obtain ⟨hi, htotal, hj⟩ := hc
    cases hs
    split
    · next hlt =>
      exact .of_le hp ⟨hi, htotal, UInt32.lt_iff_toNat_lt.1 hlt⟩ rfl rfl (Nat.le_refl _)
        (by rw [storesAt?, hp])
    · refine .of_le hp ⟨hi, htotal⟩ rfl rfl ?_ (by rw [storesAt?, hp])
      rw [Nat.mul_succ]
      omega
  case senderStore i j pid =>
    obtain ⟨hi, htotal, hj⟩ := hc
    obtain ⟨-, rfl⟩ := State.store_cases hs
    have hnext := toNat_succ hj
    split
    · refine .of_lt hp ⟨hi, htotal⟩ rfl rfl ?_
      rw [Nat.mul_succ]
      omega
    · refine .of_lt hp ⟨hi, htotal, hnext.trans_le hj⟩ rfl rfl ?_
      omega
  case groupReturned i c =>
    cases hs
    split
    · exact advances_of_part Part.noConfusion
    · next heq =>
      exact .of_le hp ⟨hc.1, hc.2, Decidable.not_not.1 heq⟩ rfl rfl (Nat.le_refl _)
        (by rw [storesAt?, hp])
  case count i c =>
    obtain ⟨hi, htotal, rfl⟩ := hc
    cases hs
    have hnext := toNat_succ hi
    refine .of_le hp ⟨hnext.trans_le hi, ?_⟩ rfl rfl ?_ (by rw [storesAt?, hp])
    · show s.totalChildren + o.numFds * 2 = o.numFds * 2 * (i + 1)
      rw [htotal, UInt32.mul_add, UInt32.mul_one]
    · rw [hnext]
  all_goals exact absurd Part.noConfusion hpart

/-- Every step creates the workers in order. -/
theorem step_advances (hc : Counting o s.totalChildren s.point) (hs : step o s e = some s') :
    Advances o s s' (stores? o s e).isSome := by
  have hsame : Advances o s s false :=
    ⟨hc, fun w hw => ⟨w, hw, Nat.le_refl w, fun h => Bool.noConfusion h⟩⟩
  cases moves_of_step hs with
  | main hs => exact main_advances hc hs
  | caught => exact advances_of_part Part.noConfusion
  | ignored | ready | woken | data | exit | fail | term => exact hsame

theorem counting_start (o : Options) : Counting o start.totalChildren start.point :=
  ⟨Nat.zero_le _, UInt32.mul_zero.symm⟩

/-- In every state reached, `main` counts the workers. -/
theorem reach_counting {C : State → Event → Prop} (h : Reach (step o) C start s) :
    Counting o s.totalChildren s.point :=
  h.invariant (I := fun s => Counting o s.totalChildren s.point) (counting_start o)
    fun _ _ _ hi _ hs => (step_advances hi hs).1

/-! ## A table that is large enough -/

/-- A number of workers that does not wrap. -/
theorem toNat_ofNat {n : Nat} (h : n < 2 ^ 32) : (UInt32.ofNat n).toNat = n :=
  UInt32.toNat_ofNat_of_lt h

/-- Where a step stores, `main` is about to store. -/
theorem storesAt_of_stores {k : UInt32} (h : stores? o s e = some k) : storesAt? o s = some k := by
  cases e <;> first | exact h | cases h

/-- The entries that were used are those before the next worker's. -/
def UsedBelow (o : Options) (s : State) (used : List UInt32) : Prop :=
  used.Nodup ∧ ∀ w, nextWorker o s.point = some w → ∀ k ∈ used, k.toNat < w

/-- When the number of workers does not wrap, every step uses a new entry. -/
theorem step_usedBelow {used : List UInt32} (hlt : o.total < 2 ^ 32)
    (hc : Counting o s.totalChildren s.point) (h : UsedBelow o s used)
    (hs : step o s e = some s') : UsedBelow o s' (used ++ (stores? o s e).toList) := by
  obtain ⟨-, hnext⟩ := step_advances hc hs
  obtain ⟨hnodup, hbelow⟩ := h
  cases hst : stores? o s e with
  | none =>
    rw [Option.toList_none, List.append_nil]
    refine ⟨hnodup, fun w' hw' k hk => ?_⟩
    obtain ⟨w, hw, hle, -⟩ := hnext w' hw'
    exact (hbelow w hw k hk).trans_le hle
  | some k =>
    obtain ⟨w, hw, hwlt, rfl⟩ := storesAt_eq hc (storesAt_of_stores hst)
    have hk := toNat_ofNat (hwlt.trans hlt)
    refine ⟨?_, fun w' hw' k' hk' => ?_⟩
    · refine List.nodup_append.2 ⟨hnodup, List.nodup_singleton _, fun a ha b hb hab => ?_⟩
      cases List.mem_singleton.1 hb
      subst hab
      exact absurd (hbelow w hw _ ha) (by omega)
    · obtain ⟨x, hx, -, hgrows⟩ := hnext w' hw'
      cases hw.symm.trans hx
      have hlt' := hgrows (by rw [hst]; rfl)
      rcases List.mem_append.1 hk' with hk' | hk'
      · exact (hbelow w hw k' hk').trans hlt'
      · cases List.mem_singleton.1 hk'
        omega

/-- A number of workers that does not wrap fits into the table. -/
theorem tableFits_of_lt (hlt : o.total < 2 ^ 32) : TableFits o := by
  refine ⟨fun s hreach k hk => ?_, fun es s hrun => ?_⟩
  · obtain ⟨w, -, hw, rfl⟩ := storesAt_eq (reach_counting hreach) hk
    rw [UInt32.lt_iff_toNat_lt, tabSize_eq, toNat_ofNat hlt, toNat_ofNat (hw.trans hlt)]
    exact hw
  · have h := observed_invariant (stores? o)
      (I := fun s used => Counting o s.totalChildren s.point ∧ UsedBelow o s used)
      ⟨counting_start o, List.nodup_nil, fun _ _ k hk => absurd hk List.not_mem_nil⟩
      (fun s e s' used hi _ hs => ⟨(step_advances hi.1 hs).1, step_usedBelow hlt hi.1 hi.2 hs⟩)
      es hrun
    exact h.2.1

/-! ## A table that is too small -/

/-- The pids that were given are at most the number of the workers. -/
def State.Fresh (s : State) : Prop := ∀ i < s.forked, (s.workers i).pid ≤ s.forked

/-- `main` stores the pid of a worker. -/
def MainPoint.storesPid : MainPoint → Bool
  | .receiverStore _ _ pid | .senderStore _ _ pid => pid ≠ -1
  | _ => false

/-- In some run, `main` comes to the point of storing worker `w`. -/
def Comes (o : Options) (w : Nat) : Prop :=
  ∃ s, Reach (step o) Free start s ∧ s.Fresh ∧ s.point.storesPid = true ∧
    nextWorker o s.point = some w

/-- `fork` can give the next pid. -/
theorem comes_of_fork {func : Func} {k : Int → MainPoint} {w : Nat}
    (h : Reach (step o) Free start s) (hf : s.Fresh)
    (hs : ∀ ret, mainStep o s ret = s.fork func ret k)
    (hk : ∀ pid : Int, pid ≠ -1 → (k pid).storesPid = true)
    (hw : ∀ pid, nextWorker o (k pid) = some w) : Comes o w := by
  have hne : (s.forked + 1 : Int) ≠ -1 := by omega
  have hpid : 0 < (s.forked + 1 : Int) ∧
      ∀ i < s.forked, (s.workers i).pid ≠ (s.forked + 1 : Int) :=
    ⟨by omega, fun i hi heq => by have := hf i hi; omega⟩
  have hfork := hs (s.forked + 1)
  rw [State.fork, if_neg hne, if_pos hpid] at hfork
  refine ⟨_, h.tail (e := .main (s.forked + 1)) trivial hfork, ?_, hk _ hne, hw _⟩
  refine forall_update_succ (P := fun _ (x : Worker) => x.pid ≤ (s.forked + 1 : Nat))
    (fun i hi => ?_) ?_
  · have := hf i hi
    omega
  · show (s.forked + 1 : Int) ≤ (s.forked + 1 : Nat)
    omega

/-- From the head of the receivers' loop. -/
theorem comes_of_receiver {i j : UInt32} (h : Reach (step o) Free start s) (hf : s.Fresh)
    (hp : s.point = .receiverHead i j) (hj : j < o.numFds) :
    Comes o (2 * o.numFds.toNat * i.toNat + j.toNat) := by
  have hmalloc : step o s (.main 0) = some (s.goto (.receiverMalloc i j)) := by
    simp only [step, mainStep, hp, if_pos hj]
  have hpipe : step o (s.goto (.receiverMalloc i j)) (.main 1) =
      some (s.goto (.receiverPipe i j)) := rfl
  have hfork : step o (s.goto (.receiverPipe i j)) (.main 0) =
      some (s.goto (.receiverFork i j)) := rfl
  have hreach := ((h.tail trivial hmalloc).tail trivial hpipe).tail trivial hfork
  exact comes_of_fork hreach hf (fun _ => rfl) (fun pid hpid => by simpa [MainPoint.storesPid])
    fun _ => rfl

/-- From the head of the senders' loop. -/
theorem comes_of_sender {i j : UInt32} (h : Reach (step o) Free start s) (hf : s.Fresh)
    (hp : s.point = .senderHead i j) (hj : j < o.numFds) :
    Comes o (2 * o.numFds.toNat * i.toNat + o.numFds.toNat + j.toNat) := by
  have hfork : step o s (.main 0) = some (s.goto (.senderFork i j)) := by
    simp only [step, mainStep, hp, if_pos hj]
  exact comes_of_fork (h.tail trivial hfork) hf (fun _ => rfl)
    (fun pid hpid => by simpa [MainPoint.storesPid]) fun _ => rfl

/-- From the head of the groups' loop. -/
theorem comes_of_group {i : UInt32} (h : Reach (step o) Free start s) (hf : s.Fresh)
    (hp : s.point = .groupHead i) (hi : i < o.numGroups) :
    Comes o (2 * o.numFds.toNat * i.toNat) := by
  have hmalloc : step o s (.main 0) = some (s.goto (.sndMalloc i)) := by
    simp only [step, mainStep, hp, if_pos hi]
  have hhead : step o (s.goto (.sndMalloc i)) (.main 1) =
      some (s.goto (.receiverHead i 0)) := rfl
  exact comes_of_receiver ((h.tail trivial hmalloc).tail trivial hhead) hf rfl
    (UInt32.lt_iff_toNat_lt.2 (numFds_pos o))

/-- From the head of the senders' loop, also where the group is complete. -/
theorem comes_of_senderHead {i j : UInt32} (h : Reach (step o) Free start s) (hf : s.Fresh)
    (hp : s.point = .senderHead i j)
    (hlt : 2 * o.numFds.toNat * i.toNat + o.numFds.toNat + j.toNat < o.total) :
    Comes o (2 * o.numFds.toNat * i.toNat + o.numFds.toNat + j.toNat) := by
  by_cases hj : j < o.numFds
  · exact comes_of_sender h hf hp hj
  · obtain ⟨hi, -, hle⟩ : i.toNat < o.numGroups.toNat ∧ _ ∧ j.toNat ≤ o.numFds.toNat := by
      have hc := reach_counting h
      rwa [hp] at hc
    have hjeq : j.toNat = o.numFds.toNat := Nat.le_antisymm hle (toNat_le_of_not_lt hj)
    have hnext := toNat_succ hi
    have hall : 2 * o.numFds.toNat * i.toNat + o.numFds.toNat + j.toNat =
        2 * o.numFds.toNat * (i + 1).toNat := by
      rw [hnext, Nat.mul_succ]
      omega
    rw [hall] at hlt ⊢
    -- the next group
    have hreturn : step o s (.main 0) = some (s.goto (.groupReturned i (o.numFds * 2))) := by
      simp only [step, mainStep, hp, if_neg hj]
    have hcount : step o (s.goto (.groupReturned i (o.numFds * 2))) (.main 0) =
        some (s.goto (.count i (o.numFds * 2))) := by
      simp [step, mainStep, State.goto]
    have hreach := (h.tail trivial hreturn).tail trivial hcount
    refine comes_of_group (hreach.tail (e := .main 0) trivial rfl) hf rfl ?_
    exact UInt32.lt_iff_toNat_lt.2 (Nat.lt_of_mul_lt_mul_left hlt)

/-- From the head of the receivers' loop, also where all receivers of the group are running. -/
theorem comes_of_receiverHead {i j : UInt32} (h : Reach (step o) Free start s) (hf : s.Fresh)
    (hp : s.point = .receiverHead i j) :
    Comes o (2 * o.numFds.toNat * i.toNat + j.toNat) := by
  by_cases hj : j < o.numFds
  · exact comes_of_receiver h hf hp hj
  · obtain ⟨-, -, hle⟩ : i.toNat < o.numGroups.toNat ∧ _ ∧ j.toNat ≤ o.numFds.toNat := by
      have hc := reach_counting h
      rwa [hp] at hc
    have hjeq : j.toNat = o.numFds.toNat := Nat.le_antisymm hle (toNat_le_of_not_lt hj)
    have hsenders : step o s (.main 0) = some (s.goto (.senderHead i 0)) := by
      simp only [step, mainStep, hp, if_neg hj]
    have hcomes := comes_of_sender (h.tail trivial hsenders) hf rfl
      (UInt32.lt_iff_toNat_lt.2 (numFds_pos o))
    rwa [hjeq]

/-- After a worker that is stored in the table comes the next one. -/
theorem comes_succ {w : Nat} (h : Comes o w) (hlt : w + 1 < o.total) (hin : w < o.tabSize.toNat) :
    Comes o (w + 1) := by
  obtain ⟨s, hreach, hf, hpid, hw⟩ := h
  have hc := reach_counting hreach
  have hw32 : w < 2 ^ 32 := hin.trans o.tabSize.toNat_lt
  have hk {k : UInt32} (hk : storesAt? o s = some k) : k < o.tabSize := by
    obtain ⟨x, hx, -, rfl⟩ := storesAt_eq hc hk
    cases hw.symm.trans hx
    rw [UInt32.lt_iff_toNat_lt, toNat_ofNat hw32]
    exact hin
  cases hp : s.point <;> rw [hp] at hc hpid hw
  case receiverStore i j pid =>
    obtain ⟨hi, -, hj⟩ := hc
    have hne : pid ≠ -1 := by simpa [MainPoint.storesPid] using hpid
    have hstore : step o s (.main 0) = some { s with
        point := .receiverHead i (j + 1)
        childTab := Function.update s.childTab (s.totalChildren + j).toNat pid } := by
      simp only [step, mainStep, hp, State.store, if_neg hne]
      exact if_pos (hk (by rw [storesAt?, hp]))
    have hcomes := comes_of_receiverHead (hreach.tail trivial hstore) hf rfl
    rw [toNat_succ hj, ← Nat.add_assoc] at hcomes
    cases hw
    exact hcomes
  case senderStore i j pid =>
    obtain ⟨hi, -, hj⟩ := hc
    have hne : pid ≠ -1 := by simpa [MainPoint.storesPid] using hpid
    have hstore : step o s (.main 0) = some { s with
        point := .senderHead i (j + 1)
        childTab := Function.update s.childTab (s.totalChildren + o.numFds + j).toNat pid } := by
      simp only [step, mainStep, hp, State.store, if_neg hne]
      exact if_pos (hk (by rw [storesAt?, hp]))
    cases hw
    have hcomes := comes_of_senderHead (hreach.tail trivial hstore) hf rfl
    rw [toNat_succ hj, ← Nat.add_assoc] at hcomes
    exact hcomes hlt
  all_goals cases hpid

/-- Every worker up to the size of the table comes. -/
theorem comes {w : Nat} (hlt : w < o.total) (hle : w ≤ o.tabSize.toNat) : Comes o w := by
  induction w with
  | zero =>
    have hpos : (0 : UInt32) < o.numGroups := UInt32.lt_iff_toNat_lt.2
      (UInt32.le_iff_toNat_le.1 o.one_le_numGroups)
    exact comes_of_group (o := o) .refl (fun i hi => absurd hi (Nat.not_lt_zero i)) rfl hpos
  | succ w ih => exact comes_succ (ih (by omega) (by omega)) hlt (by omega)

/-- A number of workers that wraps is more than the size of the table, and worker number
`tabSize` is stored outside of it. -/
theorem not_tableFits (hge : 2 ^ 32 ≤ o.total) : ¬ TableFits o := by
  intro h
  have hlt := o.tabSize.toNat_lt
  obtain ⟨s, hreach, -, hpid, hw⟩ := comes (hlt.trans_le hge) (Nat.le_refl _)
  obtain ⟨k, hk⟩ : ∃ k, storesAt? o s = some k := by
    unfold storesAt?
    cases hp : s.point <;> rw [hp] at hpid <;> first | exact ⟨_, rfl⟩ | cases hpid
  obtain ⟨w, hw', -, rfl⟩ := storesAt_eq (reach_counting hreach) hk
  cases hw.symm.trans hw'
  have hin := h.inTable s hreach _ hk
  rw [UInt32.ofNat_toNat] at hin
  exact absurd hin (UInt32.lt_irrefl _)

/-- The table is large enough exactly when the number of workers does not wrap. -/
theorem tableFits_iff : TableFits o ↔ o.total < 2 ^ 32 :=
  ⟨fun h => Nat.lt_of_not_le fun hge => not_tableFits hge h, tableFits_of_lt⟩

end

/-! ## The command lines -/

/-- For the command lines that `process_options` accepts, the table is large enough exactly when the
number of workers does not wrap. -/
theorem table_exactly {argv : List (List Char)} {g : Globals} (h : processOptions argv = .ok g) :
    TableFits (g.options (processOptions_valid h)) ↔
      2 * g.numFds.toNat * g.numGroups.toNat < 2 ^ 32 := tableFits_iff

/-- `hackbench -p 1 --groups 40 -i -f 3 -s 100000`. -/
def pinnedLine : List (List Char) :=
  ["hackbench".toList, ['-', 'p'], "1".toList, '-' :: '-' :: "groups".toList, "40".toList,
    ['-', 'i'], ['-', 'f'], "3".toList, ['-', 's'], "100000".toList]

theorem processOptions_pinnedLine :
    processOptions pinnedLine = .ok
      { datasize := 100000, numGroups := 40, numFds := 3, coreToPin := 1, isInfinite := true } := by
  have hcalls : calls optstring longopts ⟨[], pinnedLine.tail⟩ =
      [.option 'p' (some "1".toList) none, .option 'g' (some "40".toList) (some 2),
        .option 'i' none none, .option 'f' (some "3".toList) none,
        .option 's' (some "100000".toList) none] := by
    rw [pinnedLine, List.tail_cons, calls_option (getoptLong_short (by decide) (by decide)),
      calls_option (getoptLong_long (by decide) (by decide) (o := ⟨"groups".toList, true, 'g'⟩)
        (i := 2) (by decide) rfl),
      calls_option (getoptLong_flag (by decide) (by decide)),
      calls_option (getoptLong_short (by decide) (by decide)),
      calls_option (getoptLong_short (by decide) (by decide)), calls_done getoptLong_nil]
  rw [processOptions, hcalls]
  decide +kernel

/-- Its 240 workers fit into the table. -/
theorem table_pinnedLine : TableFits (Globals.options _ (processOptions_valid
    processOptions_pinnedLine)) :=
  (table_exactly processOptions_pinnedLine).2 (by decide)

/-- `hackbench -f 65536 -g 32768`. -/
def wideLine : List (List Char) :=
  ["hackbench".toList, ['-', 'f'], "65536".toList, ['-', 'g'], "32768".toList]

theorem processOptions_wideLine :
    processOptions wideLine = .ok { numFds := 65536, numGroups := 32768 } := by
  have hcalls : calls optstring longopts ⟨[], wideLine.tail⟩ =
      [.option 'f' (some "65536".toList) none, .option 'g' (some "32768".toList) none] := by
    rw [wideLine, List.tail_cons, calls_option (getoptLong_short (by decide) (by decide)),
      calls_option (getoptLong_short (by decide) (by decide)), calls_done getoptLong_nil]
  rw [processOptions, hcalls]
  decide +kernel

/-- Of `2^32` workers, the first is stored behind the end of an empty table. -/
theorem wideLine_overflows : ¬ ∀ (argv : List (List Char)) (g : Globals)
    (h : processOptions argv = .ok g), TableFits (g.options (processOptions_valid h)) :=
  fun h => not_tableFits (by decide) (h wideLine _ processOptions_wideLine)

end Hackbench
