import SchedulerComparison.Hackbench.Stop

/-!
# When a worker cannot be created

When the `fork` of a worker fails, `group` returns one less than the number of the workers it has
created, and `main` signals and reaps that many entries of `child_tab` behind the counted ones: the
last worker of the group is left out. `cleans_up_exactly` shows that the cleanup is right only when
there is none to leave out, which is when the first receiver of a group fails.

What `main` passes to `reap_workers` is the invariant of `Hackbench.Stop`. The invariant here
(`State.Cleaning`) follows the error path from the failed `fork` to `exit(1)` and counts the
workers that were waited for.
-/

open Transition

namespace Hackbench

/-- `main` is at the `fork` of `create_worker`. -/
def MainPoint.forks : MainPoint → Bool
  | .receiverFork _ _ | .senderFork _ _ => true
  | _ => false

/-- The first `n` entries of the table are the pids of all the workers, and none of them is the `-1`
of a failed `fork` or the `0` of an entry that was never filled. -/
structure State.ListsWorkers (s : State) (n : Nat) : Prop where
  count : n = s.forked
  complete : ∀ k < s.forked, ∃ i < n, s.childTab i = (s.workers k).pid
  sound : ∀ i < n, ∃ k < s.forked, s.childTab i = (s.workers k).pid
  valid : ∀ i < n, s.childTab i ≠ -1 ∧ s.childTab i ≠ 0

/-- Every worker has been sent SIGTERM and waited for. -/
def State.AllReaped (s : State) : Prop :=
  ∀ k < s.forked, (s.workers k).signalled = true ∧ (s.workers k).phase = .reaped

/-- After a failed `fork`, `main` takes its error path, passes exactly the workers to
`reap_workers`, and has signalled and reaped every one when it exits. -/
structure State.CleansUp (o : Options) (s : State) : Prop where
  takes : ∃ s' n, exec (step o) Free s [.main 0, .main 0] = some s' ∧ s'.point = .reap n true .barf
  lists : ∀ s' n dokill, Reach (step o) Free s s' → s'.point = .reap n dokill .barf →
    dokill = true ∧ s'.ListsWorkers n.toNat
  reaps : ∀ s', Reach (step o) Free s s' → s'.point = .exited 1 → s'.AllReaped

/-- The number of workers that were waited for. -/
def State.reaped (s : State) : Nat :=
  ((Finset.range s.forked).filter fun k => (s.workers k).phase = .reaped).card

/-- What holds on the error path after the first `fork` of a group has failed, and wherever a signal
takes `main` from there. -/
def State.Cleaning (s : State) : MainPoint → Prop
  | .receiverStore _ j pid => j = 0 ∧ pid = -1
  | .groupReturned _ c => c = 0
  | .reap _ dokill .barf => dokill = true
  | .kill _ _ .barf => s.catches .term = false
  | .waitHead k _ .barf => s.catches .term = false ∧ k.toNat ≤ s.reaped
  | .wait k n .barf => s.catches .term = false ∧ k.toNat ≤ s.reaped ∧ k < n
  | .exited status => status = 1 →
    (∀ k < s.forked, (s.workers k).signalled = true) ∧ s.forked ≤ s.reaped
  | .sigcatcher _ | .longjmped | .ignoreTerm | .reapAll | .reap _ _ .report | .kill _ _ .report
  | .waitHead _ _ .report | .wait _ _ .report | .report | .freeTab | .exit => True
  | _ => False

section
variable {o : Options} {s s' : State} {e : Event} {k : Nat} {x : Phase}

/-! ## Counting the reaped workers -/

/-- A worker that was not reaped goes on to a phase, and no reaped worker is lost. -/
theorem State.reaped_setPhase (h : (s.workers k).phase ≠ .reaped) :
    s.reaped ≤ (s.setPhase k x).reaped := by
  refine Finset.card_le_card fun i hi => ?_
  obtain ⟨hi, hx⟩ := Finset.mem_filter.1 hi
  have hik : i ≠ k := fun hik => h (hik ▸ hx)
  refine Finset.mem_filter.2 ⟨hi, ?_⟩
  rw [State.phase_setPhase, if_neg hik]
  exact hx

/-- Waiting for a worker counts it. -/
theorem State.reaped_succ (hk : k < s.forked) (h : (s.workers k).phase ≠ .reaped) :
    s.reaped + 1 ≤ (s.setPhase k .reaped).reaped := by
  have hnot : k ∉ (Finset.range s.forked).filter fun i => (s.workers i).phase = .reaped :=
    fun hmem => h (Finset.mem_filter.1 hmem).2
  rw [State.reaped, ← Finset.card_insert_of_notMem hnot]
  refine Finset.card_le_card fun i hi => ?_
  rw [Finset.mem_filter, State.phase_setPhase]
  rcases Finset.mem_insert.1 hi with rfl | hi
  · exact ⟨Finset.mem_range.2 hk, if_pos rfl⟩
  · obtain ⟨hi, hx⟩ := Finset.mem_filter.1 hi
    have hik : i ≠ k := fun hik => h (hik ▸ hx)
    rw [if_neg hik]
    exact ⟨hi, hx⟩

/-- When as many were reaped as were forked, all were. -/
theorem State.all_reaped_of_le (h : s.forked ≤ s.reaped) :
    ∀ i < s.forked, (s.workers i).phase = .reaped := by
  intro i hi
  have hcard : ((Finset.range s.forked).filter fun k => (s.workers k).phase = .reaped).card =
      (Finset.range s.forked).card := by
    refine Nat.le_antisymm (Finset.card_filter_le _ _) ?_
    rw [Finset.card_range]
    exact h
  exact Finset.card_filter_eq_iff.1 hcard i (Finset.mem_range.2 hi)

/-- When all were reaped, they are as many as were forked. -/
theorem State.reaped_of_all (h : ∀ i < s.forked, (s.workers i).phase = .reaped) :
    s.reaped = s.forked := by
  rw [State.reaped, Finset.filter_true_of_mem fun i hi => h i (Finset.mem_range.1 hi),
    Finset.card_range]

/-- A `wait` that returns has reaped one more worker, or has found all reaped. -/
theorem State.reaped_waitWorker {l : MainPoint} {ret : Int} {m : Nat} (hm : m < s.forked)
    (hle : m ≤ s.reaped) (hs : s.waitWorker ret l = some s') :
    s'.point = l ∧ s'.catches = s.catches ∧ m + 1 ≤ s'.reaped := by
  obtain ⟨-, hall, rfl⟩ | ⟨i, hi, -, hzombie, rfl⟩ := State.waitWorker_cases hs
  · -- `wait` fails only when none is left
    have heq : s.reaped = s.forked := State.reaped_of_all hall
    refine ⟨rfl, rfl, ?_⟩
    show m + 1 ≤ s.reaped
    omega
  · have hphase : (s.workers i).phase ≠ .reaped := by
      rw [hzombie]
      decide
    have hsucc : s.reaped + 1 ≤ (s.setPhase i .reaped).reaped := State.reaped_succ hi hphase
    refine ⟨rfl, rfl, ?_⟩
    show m + 1 ≤ (s.setPhase i .reaped).reaped
    omega

/-! ## The error path -/

/-- A worker that was not reaped goes on to a phase. -/
theorem State.Cleaning.setPhase {l : MainPoint} (h : s.Cleaning l)
    (hx : (s.workers k).phase ≠ .reaped) : (s.setPhase k x).Cleaning l := by
  have hle : s.reaped ≤ (s.setPhase k x).reaped := State.reaped_setPhase hx
  cases l with
  | waitHead _ _ after =>
    cases after with
    | barf => exact ⟨h.1, h.2.trans hle⟩
    | report => trivial
  | wait _ _ after =>
    cases after with
    | barf => exact ⟨h.1, h.2.1.trans hle, h.2.2⟩
    | report => trivial
  | reap _ _ after | kill _ _ after =>
    cases after with
    | barf => exact h
    | report => trivial
  | exited status =>
    intro hstatus
    obtain ⟨hsignalled, hreaped⟩ := h hstatus
    exact ⟨fun i hi => (State.signalled_setPhase s k i x).trans (hsignalled i hi),
      hreaped.trans hle⟩
  | _ => exact h

/-- What holds on the error path, with the invariant of stopping, when every worker is counted. -/
structure State.CleaningUp (o : Options) (s : State) : Prop where
  inv : Inv o s.core s.point
  counted : s.forked = s.totalChildren.toNat
  slot : s.totalChildren < o.tabSize
  cleaning : s.Cleaning s.point

/-- The slot of a first receiver is in the table only if a group has workers. -/
theorem numFds_two_ne_zero {n : UInt32} (h : n < o.tabSize) : (0 : UInt32) ≠ o.numFds * 2 := by
  intro heq
  have h := UInt32.lt_iff_toNat_lt.1 h
  rw [Options.tabSize, ← heq, UInt32.zero_mul] at h
  exact Nat.not_lt_zero _ h

/-- Where `main` is cleaning up, it neither forks nor counts. -/
theorem State.Cleaning.not_grows {l : MainPoint} (h : s.Cleaning l) : l.grows = false := by
  cases l <;> first | rfl | exact h.elim

/-- The table that is passed to `reap_workers` lists the workers. -/
theorem State.CleaningUp.listsWorkers {n : UInt32} (h : s.CleaningUp o)
    (hr : s.core.Reaping n) : s.ListsWorkers n.toNat := by
  have hcounted : s.core.forked = s.core.counted := h.counted
  have hn : n.toNat = s.forked := hr.all hcounted
  have htab := hr.tab hcounted
  have hpos : ∀ i < n.toNat, 0 < s.childTab i := by
    intro i hi
    have hforked : i < s.core.forked := Nat.lt_of_lt_of_eq hi hn
    rw [show s.childTab i = (s.workers i).pid from htab i hi]
    exact h.inv.distinct.pos i hforked
  refine ⟨hn,
    fun i hi => ⟨i, Nat.lt_of_lt_of_eq hi hn.symm, htab i (Nat.lt_of_lt_of_eq hi hn.symm)⟩,
    fun i hi => ⟨i, Nat.lt_of_lt_of_eq hi hn, htab i hi⟩, fun i hi => ?_⟩
  have := hpos i hi
  exact ⟨by omega, by omega⟩

/-- A statement of `main` on the error path. -/
theorem cleaning_main {ret : Int} (h : s.CleaningUp o) (hs : mainStep o s ret = some s') :
    s'.Cleaning s'.point := by
  have hl := h.cleaning
  have hat := h.inv.at_point
  have hcounted : s.core.forked = s.core.counted := h.counted
  cases hp : s.point <;> rw [hp] at hl hat <;> simp only [mainStep, hp] at hs
  case receiverStore i j pid =>
    obtain ⟨rfl, rfl⟩ := hl
    obtain ⟨-, rfl⟩ := State.store_cases hs
    rfl
  case groupReturned i c =>
    obtain rfl : c = 0 := hl
    rw [if_pos (numFds_two_ne_zero h.slot)] at hs
    cases hs
    rfl
  case sigcatcher | longjmped | ignoreTerm | reapAll | report =>
    cases hs
    trivial
  case freeTab =>
    split at hs <;> cases hs
    trivial
  case exit =>
    cases hs
    intro hstatus
    cases hstatus
  case reap n dokill after =>
    cases after with
    | barf =>
      obtain rfl : dokill = true := hl
      cases hs
      show Function.update s.catches .term false .term = false
      exact Function.update_self _ _ _
    | report => split at hs <;> cases hs <;> trivial
  case kill k n after =>
    cases after with
    | barf =>
      split at hs
      · split at hs
        · cases hs
          exact hl
        · cases hs
      · cases hs
        exact ⟨hl, Nat.zero_le _⟩
    | report =>
      split at hs
      · split at hs <;> cases hs
        trivial
      · cases hs
        trivial
  case waitHead k n after =>
    cases hs
    show State.Cleaning _ _
    cases after with
    | report => split <;> trivial
    | barf =>
      obtain ⟨hcatch, hreaped⟩ := hl
      obtain ⟨hr, hsent⟩ := hat
      split
      · next hk => exact ⟨hcatch, hreaped, hk⟩
      · next hk =>
        intro _
        have hn : n.toNat = s.forked := hr.all hcounted
        have hk := toNat_le_of_not_lt hk
        refine ⟨?_, by show s.forked ≤ s.reaped; omega⟩
        rcases hsent with hsent | hcalm
        · exact fun i hi => hsent hcounted i (Nat.lt_of_lt_of_eq hi hn.symm)
        · exact absurd (hcatch.symm.trans (hcalm.catches .term)) Bool.false_ne_true
  case wait k n after =>
    cases after with
    | report => obtain ⟨-, -, rfl⟩ | ⟨i, -, -, -, rfl⟩ := State.waitWorker_cases hs <;> trivial
    | barf =>
      obtain ⟨hcatch, hreaped, hk⟩ := hl
      have hk := UInt32.lt_iff_toNat_lt.1 hk
      have hn : n.toNat = s.forked := hat.1.all hcounted
      obtain ⟨hpoint, hcatches, hsucc⟩ :=
        State.reaped_waitWorker (Nat.lt_of_lt_of_eq hk hn) hreaped hs
      rw [hpoint]
      refine ⟨(congrFun hcatches .term).trans hcatch, ?_⟩
      rw [toNat_succ hk]
      exact hsucc
  case exited => cases hs
  all_goals exact hl.elim

/-- Every step keeps what holds on the error path. -/
theorem cleaningUp_step (h : s.CleaningUp o) (hs : step o s e = some s') : s'.CleaningUp o := by
  have hinv := step_inv h.inv hs
  cases moves_of_step hs with
  | main hs =>
    obtain ⟨hforked, htotal⟩ := (main_keeps hs).2.1 h.cleaning.not_grows
    refine ⟨hinv, ?_, ?_, cleaning_main h hs⟩
    · rw [hforked, htotal]
      exact h.counted
    · rw [htotal]
      exact h.slot
  | caught => exact ⟨hinv, h.counted, h.slot, trivial⟩
  | ignored => exact ⟨hinv, h.counted, h.slot, h.cleaning⟩
  | ready hk hx | woken hk hx _ | exit hk hx =>
    refine ⟨hinv, h.counted, h.slot, h.cleaning.setPhase ?_⟩
    rw [hx]
    decide
  | fail hk hx | term hk hx => exact ⟨hinv, h.counted, h.slot, h.cleaning.setPhase hx⟩
  | data => exact ⟨hinv, h.counted, h.slot, h.cleaning⟩

/-- It holds for the rest of the run. -/
theorem cleaningUp_reach {C : State → Event → Prop} (h : s.CleaningUp o)
    (hr : Reach (step o) C s s') : s'.CleaningUp o :=
  hr.invariant (I := fun s => s.CleaningUp o) h fun _ _ _ hi _ hs => cleaningUp_step hi hs

/-! ## The theorem -/

/-- After the first `fork` of a group has failed, the cleanup is right. -/
theorem State.CleaningUp.cleansUp {i : UInt32} (h : s.CleaningUp o)
    (hp : s.point = .receiverStore i 0 (-1)) : s.CleansUp o := by
  refine ⟨?_, fun s' n dokill hr hp' => ?_, fun s' hr hp' k hk => ?_⟩
  · have hslot : s.totalChildren + 0 < o.tabSize := by
      rw [UInt32.add_zero]
      exact h.slot
    obtain ⟨s₁, hs₁, hp₁⟩ : ∃ s₁, step o s (.main 0) = some s₁ ∧ s₁.point = .groupReturned i 0 := by
      simp only [step, mainStep, hp, State.store]
      exact ⟨_, if_pos hslot, rfl⟩
    have hs₂ : step o s₁ (.main 0) = some (s₁.goto (.reap (s₁.totalChildren + 0) true .barf)) := by
      simp only [step, mainStep, hp₁]
      rw [if_pos (numFds_two_ne_zero h.slot)]
    exact ⟨_, _, exec_cons_eq_some.2 ⟨s₁, hs₁, trivial, exec_cons_eq_some.2
      ⟨_, hs₂, trivial, rfl⟩⟩, rfl⟩
  · have hc := cleaningUp_reach h hr
    have hl := hc.cleaning
    have hat := hc.inv.at_point
    rw [hp'] at hl hat
    exact ⟨hl, hc.listsWorkers hat.1⟩
  · have hl := (cleaningUp_reach h hr).cleaning
    rw [hp'] at hl
    obtain ⟨hsignalled, hreaped⟩ := hl rfl
    exact ⟨hsignalled k hk, State.all_reaped_of_le hreaped k hk⟩

/-- The table that is passed to `reap_workers` lists all workers only if all of them are counted. -/
theorem State.CleansUp.counted (hinv : Inv o s.core s.point) (h : s.CleansUp o)
    (hstore : ∀ s', step o s (.main 0) = some s' → SameCount s s' ∧ s'.point.grows = false) :
    s.forked = s.totalChildren.toNat := by
  obtain ⟨s', n, hrun, hp'⟩ := h.takes
  obtain ⟨-, hlists⟩ := h.lists s' n true (.of_exec _ hrun) hp'
  obtain ⟨s₁, hs₁, -, hrun⟩ := exec_cons_eq_some.1 hrun
  obtain ⟨s₂, hs₂, -, hrun⟩ := exec_cons_eq_some.1 hrun
  cases hrun
  obtain ⟨⟨hf₁, ht₁⟩, hg₁⟩ := hstore s₁ hs₁
  obtain ⟨hf₂, ht₂⟩ := (main_keeps hs₂).2.1 hg₁
  have hat := (step_inv (step_inv hinv hs₁) hs₂).at_point
  rw [hp'] at hat
  by_contra hne
  have hlt : n.toNat < s'.forked := hat.1.some fun heq => hne ?_
  · have hn := hlists.count
    omega
  · have heq : s'.forked = s'.totalChildren.toNat := heq
    rw [← hf₁, ← hf₂, heq, ht₂, ht₁]

end

/-! ## A failed receiver and a failed sender -/

/-- Two groups of one receiver and one sender. -/
def twoGroups : Options where
  numGroups := 2
  numFds := 1
  one_le_numGroups := UInt32.le_iff_toNat_le.2 (Nat.le_succ 1)
  one_le_numFds := oneGroup.one_le_numFds

end Hackbench
